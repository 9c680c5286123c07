import NotebookTidy.Formatter.Spacing
import NotebookTidy.Proofs.CellTasks
import NotebookTidy.Proofs.ProperSegments
import NotebookTidy.Proofs.SpacedSources

/-!
# Directives are kept where they are

A source that is formatted segment by segment is put together of its directives and of what the
formatter answered for its code segments, in the order of the calls (`Segments.answeredAll`).  If
the formatter's answers are whole lines without directives, these pieces are again the segments of
the text: no directive gets lost in code, and none comes about (`directives_kept`).
-/

namespace NotebookTidy

open Fragment (Closed)

/-! ## Tasks with notes that succeed -/

/-- What follows a task with notes has succeeded only if the task has. -/
theorem Noting.of_run_bind {α β : Type} {formatter : Formatter} {x : Noting α} {f : α → Noting β}
    {before after : Rejections} {w w' : World} {b : β}
    (h : ((x >>= f).start before).run formatter w = ((.ok b, after), w')) :
    ∃ a between v, (x.start before).run formatter w = ((.ok a, between), v) ∧
      ((f a).start between).run formatter v = ((.ok b, after), w') := by
  rw [start_bind, Task.run_bind] at h
  rcases hfirst : (x.start before).run formatter w with ⟨⟨result, between⟩, v⟩
  rw [hfirst] at h
  cases result with
  | error error => cases h
  | ok a => exact ⟨a, between, v, rfl, h⟩

namespace Segments

/-! ## Answers for code segments -/

/-- **What comes of a code segment**, after calls that the formatter has answered: nothing of an
empty one, the formatter's answer, or the segment itself if it is refused. -/
def answered (formatter : Formatter) (mode : Mode) (history : List Call) (segment : Text) : Text :=
  if segment = [] then []
  else
    match (formatter history ⟨mode, segment⟩).result with
    | .ok formatted => formatted
    | .error _ => segment

/-- The calls after a code segment; an empty one makes none. -/
def callsAfter (mode : Mode) (history : List Call) (segment : Text) : List Call :=
  if segment = [] then history else ⟨mode, segment⟩ :: history

/-- **What comes of code segments**, one after the other. -/
def answeredAll (formatter : Formatter) (mode : Mode) : List Call → List Text → List Text
  | _, [] => []
  | history, segment :: rest =>
    answered formatter mode history segment ::
      answeredAll formatter mode (callsAfter mode history segment) rest

end Segments

/-- **A formatter that writes code**: what it answers is empty or ends with a line feed, and has no
directives. -/
def Formatter.WritesCode (formatter : Formatter) : Prop :=
  ∀ history call formatted, (formatter history call).result = .ok formatted →
    Closed formatted ∧ Plain formatted

open Segments (answered answeredAll callsAfter Fits)

section Runs
variable {formatter : Formatter} {mode : Mode} {before after : Rejections} {w w' : World}

/-- What such a formatter answers for a code segment can stand in its place. -/
theorem fits_answered (hwrites : formatter.WritesCode) (mode : Mode) (history : List Call)
    (segment : Text) : Fits segment (answered formatter mode history segment) := by
  by_cases hnil : segment = []
  · subst hnil
    exact ⟨fun _ => rfl, id, id⟩
  · rw [answered, if_neg hnil]
    cases hanswer : (formatter history ⟨mode, segment⟩).result with
    | ok formatted =>
      obtain ⟨hclosed, hplain⟩ := hwrites history _ formatted hanswer
      exact ⟨fun heq => absurd heq hnil, fun _ => hplain, fun _ => hclosed⟩
    | error error => exact ⟨id, id, id⟩

/-! ## Formatting segment by segment -/

theorem of_run_formatSegment {segment out : Text}
    (h : ((formatSegment mode segment).start before).run formatter w = ((.ok out, after), w')) :
    out = answered formatter mode w.calls segment ∧
      w'.calls = callsAfter mode w.calls segment := by
  by_cases hnil : segment = []
  · subst hnil
    cases h
    exact ⟨rfl, rfl⟩
  · rw [start_formatSegment hnil, Task.run] at h
    rw [answered, if_neg hnil, callsAfter, if_neg hnil]
    cases hanswer : (formatter w.calls ⟨mode, segment⟩).result with
    | ok formatted =>
      rw [hanswer] at h
      cases h
      exact ⟨rfl, rfl⟩
    | error error =>
      rw [hanswer] at h
      cases error with
      | cannotParse message line =>
        cases h
        exact ⟨rfl, rfl⟩
      | _ => cases h

/-- The directives stay, and the code after them is what the formatter answered. -/
theorem of_run_mapTailM {tail out : List (Text × Text)}
    (h : (Noting.start (Segments.mapTailM (formatSegment mode) tail) before).run formatter w =
      ((.ok out, after), w')) :
    out.map Prod.fst = tail.map Prod.fst ∧
      out.map Prod.snd = answeredAll formatter mode w.calls (tail.map Prod.snd) := by
  induction tail generalizing out before w with
  | nil =>
    cases h
    exact ⟨rfl, rfl⟩
  | cons entry rest ih =>
    obtain ⟨directive, code⟩ := entry
    obtain ⟨code', between, v, hcode, hmore⟩ := Noting.of_run_bind h
    obtain ⟨rest', between', v', hrest, hend⟩ := Noting.of_run_bind hmore
    cases hend
    obtain ⟨rfl, hcalls⟩ := of_run_formatSegment hcode
    obtain ⟨hdirectives, hcodes⟩ := ih hrest
    rw [hcalls] at hcodes
    constructor
    · rw [List.map_cons, List.map_cons, hdirectives]
    · rw [List.map_cons, List.map_cons, hcodes, answeredAll]

/-- **What comes of a source that is formatted segment by segment.** -/
theorem of_run_formatSegments {text out : Text}
    (h : ((formatSegments mode text).start before).run formatter w = ((.ok out, after), w')) :
    ∃ s : Segments, out = s.join ∧ s.directives = (Segments.split text).directives ∧
      s.code = answeredAll formatter mode w.calls (Segments.split text).code := by
  obtain ⟨s, between, v, hsegments, hend⟩ := Noting.of_run_bind h
  cases hend
  obtain ⟨head, between', v', hhead, hmore⟩ := Noting.of_run_bind hsegments
  obtain ⟨tail, between'', v'', htail, hlast⟩ := Noting.of_run_bind hmore
  cases hlast
  obtain ⟨rfl, hcalls⟩ := of_run_formatSegment hhead
  obtain ⟨hdirectives, hcodes⟩ := of_run_mapTailM htail
  rw [hcalls] at hcodes
  exact ⟨_, rfl, hdirectives, congrArg (_ :: ·) hcodes⟩

/-- Answers fit in the places of the code segments that they were made for. -/
theorem fits_answeredAll (hwrites : formatter.WritesCode) (mode : Mode) (history : List Call)
    (codes : List Text) : List.Forall₂ Fits codes (answeredAll formatter mode history codes) := by
  induction codes generalizing history with
  | nil => exact .nil
  | cons segment rest ih =>
    rw [answeredAll]
    exact .cons (fits_answered hwrites mode history segment) (ih _)

/-- **Directives are kept where they are.**  If a source is refused for a directive and formatted
segment by segment, with a formatter that writes code, then the text that comes of it has the same
directives, and between them what the formatter answered for the code segments of the source, one
after the other. -/
theorem directives_kept {text out message : Text} {line : Option Text}
    (hwrites : formatter.WritesCode)
    (hrefused : (formatter w.calls ⟨mode, text⟩).result = .error (.cannotParse message line))
    (hcut : cutsUp text line = true)
    (hout : (((formatSource mode text).start before).run formatter w).1.1 = .ok out) :
    (Segments.split out).directives = (Segments.split text).directives ∧
      (Segments.split out).code =
        answeredAll formatter mode (⟨mode, text⟩ :: w.calls) (Segments.split text).code := by
  rw [start_formatSource, Task.run, hrefused] at hout
  simp only [hcut, if_true] at hout
  obtain ⟨s, rfl, hdirectives, hcode⟩ := of_run_formatSegments (Prod.ext (Prod.ext hout rfl) rfl)
  have hproper : s.Proper := by
    refine (Segments.proper_split text).replaced hdirectives ?_
    rw [hcode]
    exact fits_answeredAll hwrites mode _ _
  rw [Segments.split_join hproper]
  exact ⟨hdirectives, hcode⟩

end Runs

/-! ## The spacing formatter -/

theorem writesCode_spacing : Spacing.formatter.WritesCode := by
  intro history call formatted hanswer
  change Spacing.format call.source = .ok formatted at hanswer
  by_cases hcrash : Spacing.crashWord <:+: call.source
  · rw [Spacing.format, if_pos (Text.contains_iff.mpr hcrash)] at hanswer
    cases hanswer
  · rw [Spacing.format_eq hcrash] at hanswer
    cases hrefusal : Spacing.refusal? call.source with
    | some found =>
      rw [hrefusal] at hanswer
      cases hanswer
    | none =>
      rw [hrefusal] at hanswer
      cases hanswer
      exact ⟨Spacing.closed_ofLines _, plain_of_accepted (Spacing.refusal?_tidied hrefusal)⟩

/-- A source with an adjacent pair of directives, a segment that is refused, and a directive at its
end. -/
def directed : Text := "%%time\n%cd ..\na=1\n!ls\ndef g(:\n$x".toList

/-- The text that comes of it: only its first line of code is spaced. -/
def directedSpaced : Text := "%%time\n%cd ..\na = 1\n!ls\ndef g(:\n$x".toList

theorem directives_of_directed :
    (((formatSource .standard directed).start .empty).run Spacing.formatter
        (.start ⟨[], []⟩)).1.1 = .ok directedSpaced ∧
      (Segments.split directedSpaced).directives =
        ["%%time\n".toList, "%cd ..\n".toList, "!ls\n".toList, "$x".toList] ∧
      (Segments.split directedSpaced).code =
        [[], [], "a = 1\n".toList, "def g(:\n".toList, []] := by
  have hrefused : (Spacing.formatter [] ⟨.standard, directed⟩).result =
      .error (.cannotParse "Cannot parse: 1:0: %%time".toList (some "%%time".toList)) := rfl
  have hout : (((formatSource .standard directed).start .empty).run Spacing.formatter
      (.start ⟨[], []⟩)).1.1 = .ok directedSpaced := by decide +kernel
  obtain ⟨hdirectives, hcode⟩ := directives_kept (w := .start ⟨[], []⟩) writesCode_spacing hrefused
    rfl hout
  refine ⟨hout, hdirectives.trans ?_, hcode.trans ?_⟩
  · decide +kernel
  · decide +kernel

end NotebookTidy
