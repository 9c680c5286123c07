import NotebookTidy.Proofs.CalmHistories
import NotebookTidy.Proofs.ReplacedFiles

/-!
# Runs with any number of workers agree

With a formatter that answers by a function, and nobody and nothing that disturbs the run, it makes
no difference how many workers there are and in which order their tasks take their steps: result,
announcements, and disk are those of the run that takes one file after the other
(`Runs.agree_with_sequential`).

Each task's result is forced, so the results agree file by file.  Whether a file was written anew is
told by its result, and what was written in it by the texts that its cells were formatted to, and
these depend on the formatter alone (`Reformats.unique`).
-/

namespace NotebookTidy

/-! ## What is announced -/

theorem World.Gives.announced_eq {formatter : Formatter} {w v : World} {e : Event}
    (h : Gives formatter w e v) : v.announced = e.outcome?.toList ++ w.announced := by
  cases h with
  | changed action =>
    rw [perform_snd]
    rfl
  | _ => rfl

theorem World.Follows.announced_eq {formatter : Formatter} {w v : World} {es : List Event}
    (h : Follows formatter w es v) :
    v.announced = (es.filterMap Event.outcome?).reverse ++ w.announced := by
  induction h with
  | refl => rfl
  | @gives w v u e es first rest ih =>
    rw [ih, first.announced_eq]
    cases he : e.outcome? <;> simp [he]
  | interrupt rest ih => exact ih

/-! ## What cells are formatted to -/

/-- Formatting a source has one result, if the formatter answers by a function. -/
theorem formatSource_unique {answer : Call → Formatted} {mode : Mode} {text : Text}
    {before : Rejections} {es es' : List Event}
    {result result' : Except FormatterError Text × Rejections}
    (h : Task.Trace ((formatSource mode text).start before) es (.done result))
    (h' : Task.Trace ((formatSource mode text).start before) es' (.done result'))
    (hes : ∀ exchange ∈ es.filterMap Event.exchange?, exchange.2 = answer exchange.1)
    (hes' : ∀ exchange ∈ es'.filterMap Event.exchange?, exchange.2 = answer exchange.1) :
    result = result' := by
  have hquiet : Task.Quiet ((formatSource mode text).start before) :=
    avoids_formatSource (fun _ _ => rfl) mode text before
  -- all events are exchanges with the formatter, which are foreseen on any disk
  have hforeseen {fs : List Event} {result : Except FormatterError Text × Rejections}
      (hfs : ∀ exchange ∈ fs.filterMap Event.exchange?, exchange.2 = answer exchange.1)
      (htrace : Task.Trace ((formatSource mode text).start before) fs (.done result)) :
      ∀ e ∈ fs, e.Foreseen answer ⟨[], []⟩ := by
    intro e he
    have hasks : Noting.Avoids (fun e => e.exchange?.isNone) (formatSource mode text) :=
      avoids_formatSource (fun _ _ => rfl) mode text
    have hexchange := hasks before fs _ htrace e he
    cases e with
    | answered call formatted => exact hfs _ (List.mem_filterMap.mpr ⟨_, he, rfl⟩)
    | _ => cases hexchange
  obtain ⟨forced, hforced⟩ := hquiet.forced answer ⟨[], []⟩
  rw [hforced es _ h (hforeseen hes h), hforced es' _ h' (hforeseen hes' h')]

/-- **The texts that cells are formatted to** depend on the formatter alone, if it answers by a
function. -/
theorem Reformats.unique {answer : Call → Formatted} {mode : Mode} {cells : List CodeCell}
    {before after after' : Rejections} {es es' : List Event} {texts texts' : List Text}
    (h : Reformats mode cells before es texts after)
    (h' : Reformats mode cells before es' texts' after')
    (hes : ∀ exchange ∈ es.filterMap Event.exchange?, exchange.2 = answer exchange.1)
    (hes' : ∀ exchange ∈ es'.filterMap Event.exchange?, exchange.2 = answer exchange.1) :
    texts = texts' ∧ after = after' := by
  induction h generalizing es' texts' after' with
  | nil rejections =>
    cases h'
    exact ⟨rfl, rfl⟩
  | cons formatted rest ih =>
    cases h' with
    | cons formatted' rest' =>
      rw [List.filterMap_cons_none rfl, List.filterMap_append] at hes hes'
      obtain ⟨hcell, hcells⟩ := List.forall_mem_append.mp hes
      obtain ⟨hcell', hcells'⟩ := List.forall_mem_append.mp hes'
      cases formatSource_unique formatted formatted' hcell hcell'
      obtain ⟨rfl, rfl⟩ := ih rest' hcells hcells'
      exact ⟨rfl, rfl⟩

/-- The exchanges with a formatter that answers by a function. -/
theorem World.of_mem_exchangesSince {answer : Call → Formatted} {w after : World}
    {exchange : Call × Formatted}
    (h : exchange ∈ exchangesSince (.ofFunction answer) w after) :
    exchange.2 = answer exchange.1 := by
  have hall : ∀ calls : List Call, ∀ exchange ∈ exchangesOf (.ofFunction answer) calls,
      exchange.2 = answer exchange.1 := by
    intro calls
    induction calls with
    | nil => exact fun exchange hexchange => absurd hexchange List.not_mem_nil
    | cons call before ih =>
      intro exchange hexchange
      rcases List.mem_append.mp hexchange with hexchange | hexchange
      · exact ih exchange hexchange
      · cases List.mem_singleton.mp hexchange
        rfl
  exact hall _ _ (List.mem_of_mem_drop h)

namespace Batch

/-! ## Announcements of a run -/

/-- Outcomes counted file by file. -/
theorem sum_count_toList (outcome : Outcome) (results : List (Option Outcome)) :
    ∑ position ∈ Finset.range results.length,
        (results[position]?.join.toList).count outcome =
      (results.filterMap id).count outcome := by
  induction results with
  | nil => rfl
  | cons result rest ih =>
    rw [List.length_cons, Finset.sum_range_succ']
    simp only [List.getElem?_cons_succ, List.getElem?_cons_zero, ih]
    cases result with
    | none => rfl
    | some first =>
      have hcons : (some first :: rest).filterMap id = first :: rest.filterMap id := rfl
      rw [hcons, List.count_cons, Option.join_some, Option.toList_some, List.count_singleton]

/-- **Every outcome of a run has been announced**, once, and nothing else has. -/
theorem Runs.announced_perm {formatter : Formatter} {plan : BatchPlan} {paths : List Text}
    {w : World} {r : BatchResult} {after : World} (h : Runs formatter plan paths w r after) :
    after.announced.Perm (r.outcomes ++ w.announced) := by
  obtain ⟨files, results, log, -, hlog, rfl⟩ := h.history
  have hlength : results.length = files.length := by simpa using hlog.length_tasks
  rw [hlog.follows.announced_eq, result]
  refine ((List.reverse_perm _).append_right _).trans (List.Perm.append_right _ ?_)
  rw [List.perm_iff_count]
  intro outcome
  -- each task announces its own outcome
  have hone (position : Nat) (hposition : position ∈ Finset.range results.length) :
      (Pool.own position log).countP (fun e => e.outcome? == some outcome) =
        (results[position]?.join.toList).count outcome := by
    have hlt := Finset.mem_range.mp hposition
    have hfile : files[position]? = some files[position] := List.getElem?_eq_getElem _
    have htrace := hlog.trace hfile (t := .done results[position]) (by simp [hlt])
    rw [← List.count_filterMap, announced_task htrace, List.getElem?_eq_getElem hlt,
      Option.join_some]
  rw [List.count_filterMap, ← Pool.sum_countP_own _ results.length log (hlength ▸ hlog.position_lt),
    Finset.sum_congr rfl hone, sum_count_toList]

/-! ## Two runs agree -/

section
variable {answer : Call → Formatted} {plan : BatchPlan} {workers : Nat} {w after after' : World}
  {files : List StoredNotebook} {results results' : List (Option Outcome)}
  {begun begun' : List Bool} {log log' : List (Nat × Event)}
  (h : Pool.History (.ofFunction answer) plan files w log ⟨results.map .done, begun, after⟩)
  (h' : Pool.History (.ofFunction answer) { plan with workers } files w log'
    ⟨results'.map .done, begun', after'⟩)
  (hapart : Pool.Apart w.disk files) (hcalm : w.CalmSince after) (hcalm' : w.CalmSince after')
include h h' hapart hcalm hcalm'

/-- **Tasks end with the same results**, whatever else happened. -/
theorem results_unique : results = results' := by
  have hlength : results.length = files.length := by simpa using h.length_tasks
  have hlength' : results'.length = files.length := by simpa using h'.length_tasks
  refine List.ext_getElem (hlength.trans hlength'.symm) fun position hlt hlt' => ?_
  have hfile : files[position]? = some files[position] := List.getElem?_eq_getElem (hlength ▸ hlt)
  have htrace := h.trace hfile (t := .done results[position]) (by simp [hlt])
  have htrace' := h'.trace hfile (t := .done results'[position]) (by simp [hlt'])
  obtain ⟨result, hforced⟩ := forced_task answer w.disk plan files[position]
  rw [hforced _ _ htrace fun e he => h.foreseen hapart hcalm _ (Pool.mem_of_own he),
    hforced _ _ htrace' fun e he => h'.foreseen hapart hcalm' _ (Pool.mem_of_own he)]

/-- **Files have the same content in the end.** -/
theorem reads_unique {file : StoredNotebook} (hmem : file ∈ files)
    (hload : StoredNotebook.load w.disk file.path = .ok file) :
    after.disk.read file.path = after'.disk.read file.path := by
  have hresults := results_unique h h' hapart hcalm hcalm'
  subst hresults
  obtain ⟨position, hlt, rfl⟩ := List.mem_iff_getElem.mp hmem
  have hlength : results.length = files.length := by simpa using h.length_tasks
  have hfile : files[position]? = some files[position] := List.getElem?_eq_getElem hlt
  have hlast : (results.map Task.done)[position]? = some (.done results[position]) := by
    simp [hlength, hlt]
  have hwhole := h.file_whole hapart hfile hload hlast
  have hwhole' := h'.file_whole hapart hfile hload hlast
  rcases hwhole with ⟨hsame, hnot⟩ | ⟨-, es, texts, rejections, hreformats, hes, hread, -, his⟩
  · rcases hwhole' with ⟨hsame', -⟩ | ⟨-, -, -, -, -, -, -, -, his'⟩
    · rw [hsame, hsame']
    · exact absurd (his' _ rfl) (hnot _ rfl)
  · rcases hwhole' with ⟨-, hnot'⟩ | ⟨-, es', texts', rejections', hreformats', hes', hread', -, -⟩
    · exact absurd (his _ rfl) (hnot' _ rfl)
    · obtain ⟨rfl, -⟩ := hreformats.unique hreformats'
        (fun exchange hexchange => World.of_mem_exchangesSince (hes.mem hexchange))
        (fun exchange hexchange => World.of_mem_exchangesSince (hes'.mem hexchange))
      rw [hread, hread']

end

/-- **What is no file of a run is as it was.** -/
theorem Runs.rest_eq {answer : Call → Formatted} {plan : BatchPlan} {paths : List Text} {w : World}
    {r : BatchResult} {after : World} (h : Runs (.ofFunction answer) plan paths w r after)
    (hdisk : w.disk.WellFormed)
    (hcanonical : ∀ path ∈ paths, ∃ location, w.disk.Canonical path location)
    (hdistinct : paths.Nodup) (hcalm : w.CalmSince after) {location : Location}
    (hlocation : location.path ∉ paths) : after.disk.node? location = w.disk.node? location := by
  obtain ⟨files, results, log, hload, hlog, rfl⟩ := h.history
  have hapart := apart_of_loadAll hdisk hcanonical hdistinct hload
  refine hlog.rest_eq hapart hcalm fun file hfile hplace => hlocation ?_
  obtain ⟨directory, name, -, hplace', hstraight, -⟩ := hapart.place hfile
  rw [← hplace, hplace', ← hstraight.path_eq, ← (of_loadAll hload).1]
  exact List.mem_map_of_mem hfile

/-- **Two runs over the same files agree**, whatever the numbers of their workers. -/
theorem Runs.agree {answer : Call → Formatted} {plan : BatchPlan} {workers : Nat}
    {paths : List Text} {w : World} {r r' : BatchResult} {after after' : World}
    (h : Runs (.ofFunction answer) plan paths w r after)
    (h' : Runs (.ofFunction answer) { plan with workers } paths w r' after')
    (hdisk : w.disk.WellFormed)
    (hcanonical : ∀ path ∈ paths, ∃ location, w.disk.Canonical path location)
    (hdistinct : paths.Nodup) (hcalm : w.CalmSince after) (hcalm' : w.CalmSince after') :
    r = r' ∧ after.announced.Perm after'.announced ∧
      (∀ path ∈ paths, after.disk.read path = after'.disk.read path) ∧
      ∀ location : Location, location.path ∉ paths →
        after.disk.node? location = after'.disk.node? location := by
  have hannounced := h.announced_perm
  have hannounced' := h'.announced_perm
  have hrest {location : Location} (hlocation : location.path ∉ paths) :
      after.disk.node? location = after'.disk.node? location :=
    (h.rest_eq hdisk hcanonical hdistinct hcalm hlocation).trans
      (h'.rest_eq hdisk hcanonical hdistinct hcalm' hlocation).symm
  obtain ⟨files, results, log, hload, hlog, rfl⟩ := h.history
  obtain ⟨files', results', log', hload', hlog', rfl⟩ := h'.history
  cases hload.symm.trans hload'
  have hapart := apart_of_loadAll hdisk hcanonical hdistinct hload
  have hresult : result results after = result results' after' := by
    rw [result, result, results_unique hlog hlog' hapart hcalm hcalm', hcalm.cancelled,
      hcalm'.cancelled]
  refine ⟨hresult, hannounced.trans (hresult ▸ hannounced'.symm), ?_, fun _ => hrest⟩
  obtain ⟨hpaths, hloads⟩ := of_loadAll hload
  rintro path hpath
  rw [← hpaths] at hpath
  obtain ⟨file, hfile, rfl⟩ := List.mem_map.mp hpath
  exact reads_unique hlog hlog' hapart hcalm hcalm' hfile (hloads file hfile)

/-! ## The sequential run -/

/-- A task carried out alone against a formatter that answers by a function disturbs nothing. -/
theorem calmSince_run {α : Type} (answer : Call → Formatted) (t : Task α) (w : World) :
    (t.run (.ofFunction answer) w).2.interrupts = w.interrupts ∧
      (t.run (.ofFunction answer) w).2.mishaps = w.mishaps := by
  induction t generalizing w with
  | done a => exact ⟨rfl, rfl⟩
  | ask call next ih => exact ih _ _
  | poll next ih => exact ih _ _
  | disk action next ih =>
    obtain ⟨hinterrupts, hmishaps⟩ := ih (w.perform action).1 (w.perform action).2
    exact ⟨hinterrupts.trans (by rw [World.perform_snd]),
      hmishaps.trans (by rw [World.perform_snd])⟩
  | announce outcome next ih => exact ih _

/-- The tasks of a run do not depend on how many workers there are. -/
theorem inOrder_workers (plan : BatchPlan) (workers : Nat) (files : List StoredNotebook) :
    inOrder { plan with workers } files = inOrder plan files := by
  induction files with
  | nil => rfl
  | cons file rest ih =>
    rw [inOrder, inOrder, ih]
    rfl

theorem run_workers (formatter : Formatter) (plan : BatchPlan) (workers : Nat) (paths : List Text)
    (w : World) : run formatter { plan with workers } paths w = run formatter plan paths w := by
  simp only [run, inOrder_workers]

/-- **Parallel and sequential runs agree.**  A formatter answers by a function, the files of a run
can be loaded and have distinct canonical paths, and nobody has cancelled.  Then the run that takes
one file after the other ends without having been disturbed, and it is one of the ways the run can
go with any number of workers.  Every other way, with any number of workers and in any order of
their steps, that nothing disturbs ends with the same result: the same outcomes in the order of the
files, with the same rejected code, and not cancelled.  As many outcomes are announced, the same
ones; each file has the same content in the end; and everything else on the disk is the same. -/
theorem Runs.agree_with_sequential {answer : Call → Formatted} {plan : BatchPlan}
    {paths : List Text} {w : World} {files : List StoredNotebook} (hdisk : w.disk.WellFormed)
    (hcanonical : ∀ path ∈ paths, ∃ location, w.disk.Canonical path location)
    (hdistinct : paths.Nodup) (hcalm : w.cancelled = false)
    (hload : StoredNotebook.loadAll w.disk paths = .ok files) :
    ∃ r after, run (.ofFunction answer) { plan with workers := 1 } paths w = (.ok r, after) ∧
      w.CalmSince after ∧
      ∀ workers, Runs (.ofFunction answer) { plan with workers } paths w r after ∧
        ∀ r' after', Runs (.ofFunction answer) { plan with workers } paths w r' after' →
          w.CalmSince after' →
            r' = r ∧ after'.announced.Perm after.announced ∧
              (∀ path ∈ paths, after'.disk.read path = after.disk.read path) ∧
              ∀ location : Location, location.path ∉ paths →
                after'.disk.node? location = after.disk.node? location := by
  obtain ⟨results, after, hresults⟩ :
      ∃ results after, (inOrder plan files).run (.ofFunction answer) w = (results, after) :=
    ⟨_, _, rfl⟩
  have hrun : ∀ workers, run (.ofFunction answer) { plan with workers } paths w =
      (.ok (result results after), after) := by
    intro workers
    rw [run_workers, run, hload]
    simp only [hresults]
  have hafter : w.CalmSince after := by
    obtain ⟨hinterrupts, hmishaps⟩ := calmSince_run answer (inOrder plan files) w
    rw [hresults] at hinterrupts hmishaps
    refine ⟨?_, hmishaps⟩
    rw [World.cancelled, hinterrupts]
    exact hcalm
  refine ⟨_, after, hrun 1, hafter, fun workers => ⟨runs_of_run (hrun workers), ?_⟩⟩
  intro r' after' hruns' hafter'
  have hsequential := runs_of_run (hrun 1)
  have hparallel : Runs (.ofFunction answer) { { plan with workers := 1 } with workers } paths w r'
      after' := hruns'
  obtain ⟨hresult, hannounced, hreads, hrest⟩ :=
    hsequential.agree hparallel hdisk hcanonical hdistinct hafter hafter'
  exact ⟨hresult.symm, hannounced.symm, fun path hpath => (hreads path hpath).symm,
    fun location hlocation => (hrest location hlocation).symm⟩

/-- A file system with two files of the same content. -/
def twoFiles : FileSystem :=
  ⟨[(["a.ipynb".toList], .file (Utf8.encode oneCell) Permission.ofFile),
    (["b.ipynb".toList], .file (Utf8.encode oneCell) Permission.ofFile)], []⟩

/-- Two files whose code lacks spaces are written anew by two workers as by one. -/
theorem agree_of_two :
    ∃ r after, Runs Spacing.formatter ⟨.format, 2, .standard⟩
        ["/a.ipynb".toList, "/b.ipynb".toList] (.start twoFiles) r after ∧
      r.outcomes = [.ok ⟨"/a.ipynb".toList, .reformatted, .empty⟩,
        .ok ⟨"/b.ipynb".toList, .reformatted, .empty⟩] ∧
      ∀ r' after', Runs Spacing.formatter ⟨.format, 2, .standard⟩
          ["/a.ipynb".toList, "/b.ipynb".toList] (.start twoFiles) r' after' →
        (World.start twoFiles).CalmSince after' → r' = r := by
  have hdisk : (World.start twoFiles).disk.WellFormed := by
    refine ⟨by decide, fun entry hentry => ?_⟩
    rcases List.mem_cons.mp hentry with rfl | hentry
    · exact ⟨List.cons_ne_nil _ _, _, rfl⟩
    · cases List.mem_singleton.mp hentry
      exact ⟨List.cons_ne_nil _ _, _, rfl⟩
  have hcanonical : ∀ path ∈ ["/a.ipynb".toList, "/b.ipynb".toList],
      ∃ location, (World.start twoFiles).disk.Canonical path location := by
    intro path hpath
    rcases List.mem_cons.mp hpath with rfl | hpath
    · exact ⟨["a.ipynb".toList], rfl, rfl⟩
    · cases List.mem_singleton.mp hpath
      exact ⟨["b.ipynb".toList], rfl, rfl⟩
  have hload : ∃ files, StoredNotebook.loadAll (World.start twoFiles).disk
      ["/a.ipynb".toList, "/b.ipynb".toList] = .ok files := ⟨_, rfl⟩
  obtain ⟨files, hload⟩ := hload
  obtain ⟨r, after, hrun, -, hworkers⟩ :=
    @Runs.agree_with_sequential (fun call => Spacing.format call.source) ⟨.format, 2, .standard⟩
      _ _ _ hdisk hcanonical (by decide) rfl hload
  obtain ⟨hruns, hagree⟩ := hworkers 2
  refine ⟨r, after, hruns, ?_, fun r' after' hruns' hcalm => (hagree r' after' hruns' hcalm).1⟩
  cases hrun
  rfl

end Batch
end NotebookTidy
