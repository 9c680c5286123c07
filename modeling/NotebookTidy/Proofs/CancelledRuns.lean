import NotebookTidy.Proofs.CancelledTasks
import NotebookTidy.Proofs.CompleteRuns

/-!
# Runs that are cancelled during a call

The call is made for some file, when the files before it have been dealt with.  Up to there the run
goes as it would have gone otherwise; the file itself is not written, because the task asks once
more before it writes; and the tasks of the files after it end at once.  So each file before has the
outcome and the content that it would have had, and all other files have the content that they had
(`runs_cancelled_cleanly`).
-/

namespace NotebookTidy

/-- The outcomes that are about the file at a path. -/
def BatchResult.outcomesOf (r : BatchResult) (path : Text) : List Outcome :=
  r.outcomes.filter fun outcome => outcome.path? = some path

namespace StoredNotebook

/-- The file with other cells in its notebook. -/
def withCells (file : StoredNotebook) (cells : List Cell) : StoredNotebook :=
  { file with notebook := { file.notebook with cells } }

/-- What is done with a notebook whose cells have been formatted. -/
def conclude (file : StoredNotebook) (after : Formatting) : Task Outcome :=
  match after.result with
  | .error error => .done (.error (failure file.path error))
  | .ok false => .done (.ok ⟨file.path, .unchanged, after.rejections⟩)
  | .ok true => save file.path { file.notebook with cells := after.cells } after.rejections

theorem format_eq_conclude (mode : Mode) (file : StoredNotebook) :
    file.format mode = (formatCells mode file.notebook.cells .empty).bind file.conclude := by
  rw [format_eq, Notebook.format_eq, Task.bind_assoc]
  refine congrArg _ (funext fun ⟨cells, result, rejections⟩ => ?_)
  rcases result with error | changed
  · rfl
  · cases changed <;> rfl

theorem avoids_conclude {kind : Event → Bool}
    (hpoll : ∀ cancelled, kind (.polled cancelled) = false)
    (hchange : ∀ action answer, kind (.changed action answer) = false) (file : StoredNotebook)
    (after : Formatting) : (file.conclude after).Avoids kind := by
  unfold conclude
  split
  · exact .done _
  · exact .done _
  · exact avoids_save hpoll hchange _ _ _

end StoredNotebook

namespace Batch
variable {formatter : Formatter} {plan : BatchPlan} {n : Nat}

/-! ## The task of a file -/

/-- **A file's task asks the formatter** what its cells ask. -/
theorem calls_task (file : StoredNotebook) {w : World} (h : w.cancelled = false) :
    ((task plan file).run formatter w).2.calls =
      cellCalls formatter plan.action plan.mode file.notebook.cells .empty w := by
  have hreport (outcome : Outcome) : (report outcome).Avoids fun e => e.exchange?.isSome :=
    avoids_report (fun _ => rfl) outcome
  rw [task_eq, Task.run, h]
  change (((file.process plan.action plan.mode).bind report).run formatter w).2.calls = _
  rw [Task.calls_bind hreport]
  unfold StoredNotebook.process
  cases plan.action with
  | format =>
    change ((file.format plan.mode).run formatter w).2.calls = _
    rw [StoredNotebook.format_eq_conclude,
      Task.calls_bind fun after => file.avoids_conclude (fun _ => rfl) (fun _ _ => rfl) after]
    rfl
  | check =>
    change ((file.check plan.mode).run formatter w).2.calls = _
    rw [StoredNotebook.check_eq, Notebook.check_eq, Task.bind_assoc, Task.calls_bind]
    · rfl
    · rintro ⟨error | formatted, rejections⟩
      · exact .done _
      · cases formatted <;> exact .done _

/-- A task that spares its file, whichever way it goes, leaves the disk as it is. -/
theorem run_of_spared {path : Text} {t : Task (Option Outcome)}
    (h : ∀ es u, Task.Trace t es u → Spared path es u) (w : World) :
    (t.run formatter w).2.disk = w.disk ∧ ¬ IsReformatted path (t.run formatter w).1 := by
  obtain ⟨es, htrace, hfollows⟩ := (Task.steps_run formatter t w).trace
  obtain ⟨hquiet, hnot⟩ := h es _ htrace
  exact ⟨hfollows.disk_of_quiet hquiet, hnot _ rfl⟩

/-- **Once the run has been cancelled, a file whose cells have been formatted is spared.** -/
theorem run_conclude_of_cancelled (file : StoredNotebook) (after : Formatting) {w : World}
    (h : w.cancelled = true) :
    (((file.conclude after).bind report).run formatter w).2.disk = w.disk ∧
      ¬ IsReformatted file.path (((file.conclude after).bind report).run formatter w).1 := by
  unfold StoredNotebook.conclude
  split
  · exact run_of_spared (fun es u htrace => spared_report htrace (by simp)) w
  · exact run_of_spared (fun es u htrace => spared_report htrace (by simp)) w
  · rw [StoredNotebook.save_eq, Task.bind, Task.run, h]
    exact run_of_spared (fun es u htrace => spared_report htrace (by simp)) w

/-- **A file during whose formatting the call is made** is not written. -/
theorem spared_of_call (hraises : formatter.RaisesAt n) (file : StoredNotebook) {w : World}
    (hw : w.cancelled = false) (hbefore : w.calls.length ≤ n)
    (hafter : n < ((task plan file).run formatter.calm w).2.calls.length) :
    ((task plan file).run formatter w).2.disk = w.disk ∧
      ¬ IsReformatted file.path ((task plan file).run formatter w).1 := by
  cases haction : plan.action with
  | check => exact run_of_spared (fun es u htrace => spared_of_check haction htrace) w
  | format =>
    rw [calls_task file hw, haction] at hafter
    have hquiet : (formatCells plan.mode file.notebook.cells .empty).Quiet :=
      avoids_formatCells (fun _ _ => rfl) (fun _ => rfl) _ _ _
    have hrun : (task plan file).run formatter w =
        ((formatCells plan.mode file.notebook.cells .empty).bind fun after =>
          (file.conclude after).bind report).run formatter w := by
      rw [task_eq, Task.run, hw, haction, ← Task.bind_assoc, ← StoredNotebook.format_eq_conclude]
      rfl
    rw [hrun, Task.run_bind, ← Task.disk_run hquiet w]
    exact run_conclude_of_cancelled file _ (Task.cancelled_of_call hraises hbefore hafter)

/-- A file's outcome is about that file. -/
theorem path_of_task {file : StoredNotebook} {w : World} {outcome : Outcome}
    (h : ((task plan file).run formatter w).1 = some outcome) :
    outcome.path? = some file.path := by
  obtain ⟨es, htrace, -⟩ := (Task.steps_run formatter (task plan file) w).trace
  have htells := meets_task plan file es _ htrace
  rw [h] at htells
  exact htells.path_eq

/-! ## Files one after the other -/

/-- What the formatter has been asked once files have been processed one after the other. -/
def callsOver (formatter : Formatter) (plan : BatchPlan) (files : List StoredNotebook) (w : World) :
    List Call := ((inOrder plan files).run formatter w).2.calls

theorem callsOver_snoc (first : List StoredNotebook) (file : StoredNotebook) (w : World) :
    callsOver formatter plan (first ++ [file]) w =
      ((task plan file).run formatter ((inOrder plan first).run formatter w).2).2.calls := by
  rw [callsOver, run_inOrder_append, run_inOrder_cons]
  rfl

/-- **Once the run has been cancelled, files have no outcomes** and nothing happens. -/
theorem run_inOrder_of_cancelled (files : List StoredNotebook) {w : World}
    (h : w.cancelled = true) :
    (inOrder plan files).run formatter w = (files.map fun _ => none, w) := by
  induction files with
  | nil => rfl
  | cons file rest ih =>
    have htask : (task plan file).run formatter w = (none, w) := by
      rw [task_eq, Task.run, h]
      rfl
    rw [run_inOrder_cons, htask, ih]
    rfl

/-- Outcomes are about the files. -/
theorem path_of_inOrder {files : List StoredNotebook} {w : World} {outcome : Outcome}
    (h : outcome ∈ ((inOrder plan files).run formatter w).1.filterMap id) :
    ∃ file ∈ files, outcome.path? = some file.path := by
  induction files generalizing w with
  | nil => cases h
  | cons file rest ih =>
    rw [run_inOrder_cons, List.filterMap_cons] at h
    cases hfirst : ((task plan file).run formatter w).1 with
    | none =>
      rw [hfirst] at h
      obtain ⟨other, hother, hpath⟩ := ih h
      exact ⟨other, List.mem_cons_of_mem _ hother, hpath⟩
    | some first =>
      rw [hfirst] at h
      rcases List.mem_cons.mp h with rfl | h
      · exact ⟨file, List.mem_cons_self, path_of_task hfirst⟩
      · obtain ⟨other, hother, hpath⟩ := ih h
        exact ⟨other, List.mem_cons_of_mem _ hother, hpath⟩

/-- What is not a file of the run has no outcome. -/
theorem filter_inOrder_eq_nil {files : List StoredNotebook} {w : World} {path : Text}
    (h : path ∉ files.map StoredNotebook.path) :
    (((inOrder plan files).run formatter w).1.filterMap id).filter
      (fun outcome => outcome.path? = some path) = [] := by
  rw [List.filter_eq_nil_iff]
  intro outcome houtcome hpath
  obtain ⟨file, hfile, heq⟩ := path_of_inOrder houtcome
  rw [heq, decide_eq_true_eq, Option.some.injEq] at hpath
  exact h (List.mem_map.mpr ⟨file, hfile, hpath⟩)

/-- An outcome that is about another file. -/
theorem filter_toList_eq_nil {own : Option Outcome} {path other : Text}
    (hown : ∀ outcome, own = some outcome → outcome.path? = some path) (hne : other ≠ path) :
    own.toList.filter (fun outcome => outcome.path? = some other) = [] := by
  cases own with
  | none => rfl
  | some outcome => simp [hown outcome rfl, hne.symm]

/-- **Files that are loaded and lie apart**, some before others: the others do not touch the first
ones, nor are they touched by them. -/
theorem reads_of_append {paths : List Text} {w : World} {first rest : List StoredNotebook}
    (hload : StoredNotebook.loadAll w.disk paths = .ok (first ++ rest))
    (hdistinct : (paths.map w.disk.resolve).Nodup) :
    (∀ file ∈ first, ((inOrder plan (first ++ rest)).run formatter w).2.disk.read file.path =
        ((inOrder plan first).run formatter w).2.disk.read file.path) ∧
      ∀ file ∈ rest, ((inOrder plan first).run formatter w).2.disk.read file.path =
        w.disk.read file.path := by
  have hpaths := (of_loadAll hload).1
  have hmem {file : StoredNotebook} (h : file ∈ first ++ rest) : file.path ∈ paths :=
    hpaths ▸ List.mem_map_of_mem h
  have hdisjoint := List.disjoint_of_nodup_append
    (List.map_append ▸ hpaths ▸ hdistinct.of_map _)
  obtain ⟨hapart, hreads⟩ := (FilesApart.of_loadAll hload hdistinct).of_inOrder formatter plan
    fun file h => hmem (List.mem_append_left rest h)
  obtain ⟨-, hreads'⟩ := hapart.of_inOrder formatter plan
    fun file h => hmem (List.mem_append_right first h)
  refine ⟨fun file hfile => ?_, fun file hfile => ?_⟩
  · rw [run_inOrder_append]
    refine hreads' _ (hmem (List.mem_append_left rest hfile)) fun hother => ?_
    exact hdisjoint (List.mem_map_of_mem hfile) hother
  · refine hreads _ (hmem (List.mem_append_right first hfile)) fun hother => ?_
    exact hdisjoint hother (List.mem_map_of_mem hfile)

/-! ## Outcomes of a run that was stopped -/

/-- **The result of a run that was stopped** at a file, after others: theirs, its own if it has one,
and no more. -/
def stopped (formatter : Formatter) (plan : BatchPlan) (first : List StoredNotebook) (w : World)
    (own : Option Outcome) (later : List StoredNotebook) (after : World) : BatchResult :=
  result (((inOrder plan first).run formatter w).1 ++ own :: later.map fun _ => none) after

section
variable {w after : World} {first later : List StoredNotebook} {file : StoredNotebook}
  {own : Option Outcome}

theorem outcomes_stopped :
    (stopped formatter plan first w own later after).outcomes =
      ((inOrder plan first).run formatter w).1.filterMap id ++ own.toList := by
  have hnone : (later.map fun _ => (none : Option Outcome)).filterMap id = [] := by
    simp [List.filterMap_map]
  rw [stopped, result, List.filterMap_append, List.filterMap_cons, hnone]
  cases own <;> rfl

variable (hnodup : ((first ++ file :: later).map StoredNotebook.path).Nodup)
  (hown : ∀ outcome, own = some outcome → outcome.path? = some file.path)
include hnodup

/-- The file was not written anew, if its own outcome does not say so. -/
theorem not_reformatted_stopped (hnot : ¬ IsReformatted file.path own) (rejections : Rejections) :
    .ok ⟨file.path, .reformatted, rejections⟩ ∉
      (stopped formatter plan first w own later after).outcomes := by
  rw [List.map_append] at hnodup
  rw [outcomes_stopped]
  intro hmem
  rcases List.mem_append.mp hmem with hmem | hmem
  · obtain ⟨other, hother, hpath⟩ := path_of_inOrder hmem
    refine List.disjoint_of_nodup_append hnodup (List.mem_map_of_mem hother) ?_
    rw [← Option.some.inj hpath]
    exact List.mem_cons_self
  · exact hnot ⟨rejections, Option.mem_toList.mp hmem⟩

include hown

/-- **A file before has the outcomes** that it has in the whole run. -/
theorem outcomesOf_before {other : StoredNotebook} (hother : other ∈ first) (v : World) :
    (stopped formatter plan first w own later after).outcomesOf other.path =
      (result ((inOrder plan (first ++ file :: later)).run formatter w).1 v).outcomesOf
        other.path := by
  rw [List.map_append] at hnodup
  have hnot : other.path ∉ (file :: later).map StoredNotebook.path :=
    List.disjoint_of_nodup_append hnodup (List.mem_map_of_mem hother)
  have hne : other.path ≠ file.path := fun heq => hnot (heq ▸ List.mem_cons_self)
  rw [BatchResult.outcomesOf, outcomes_stopped, List.filter_append, filter_toList_eq_nil hown hne,
    BatchResult.outcomesOf, result, run_inOrder_append, List.filterMap_append, List.filter_append,
    filter_inOrder_eq_nil hnot]

/-- **A file after it has none.** -/
theorem outcomesOf_later {other : StoredNotebook} (hother : other ∈ later) :
    (stopped formatter plan first w own later after).outcomesOf other.path = [] := by
  rw [List.map_append] at hnodup
  have hnot : other.path ∉ first.map StoredNotebook.path := fun hmem =>
    List.disjoint_of_nodup_append hnodup hmem (List.mem_cons_of_mem _ (List.mem_map_of_mem hother))
  have hne : other.path ≠ file.path := fun heq =>
    (List.nodup_cons.mp hnodup.of_append_right).1 (heq ▸ List.mem_map_of_mem hother)
  rw [BatchResult.outcomesOf, outcomes_stopped, List.filter_append, filter_toList_eq_nil hown hne,
    filter_inOrder_eq_nil hnot, List.nil_append]

end

/-! ## The run -/

section
variable {paths : List Text} {w : World} {first later : List StoredNotebook} {file : StoredNotebook}
  (hraises : formatter.RaisesAt n) (hw : w.cancelled = false)
  (hbefore : (callsOver formatter.calm plan first w).length ≤ n)
  (hduring : n < (callsOver formatter.calm plan (first ++ [file]) w).length)
include hraises hw hbefore hduring

/-- **Where the call is made**: in one code cell of the file, and no other cell is heard of after
it. -/
theorem calls_of_call :
    ∃ before cell rest, file.notebook.cells = before ++ .code cell :: rest ∧
      (callsOver formatter.calm plan (first ++ [file.withCells before]) w).length ≤ n ∧
      ((task plan file).run formatter ((inOrder plan first).run formatter.calm w).2).2.calls =
        callsOver formatter.calm plan (first ++ [file.withCells (before ++ [.code cell])]) w := by
  have hcalm : ((inOrder plan first).run formatter.calm w).2.cancelled = false :=
    (Task.cancelled_calm formatter _ w).trans hw
  rw [callsOver_snoc, calls_task file hcalm] at hduring
  obtain ⟨before, cell, rest, hcells, hle, hcalls⟩ :=
    cellCalls_cut hraises hcalm hbefore hduring
  refine ⟨before, cell, rest, hcells, ?_, ?_⟩
  · rw [callsOver_snoc, calls_task _ hcalm]
    exact hle
  · rw [callsOver_snoc, calls_task file hcalm, calls_task _ hcalm]
    exact hcalls

/-- **The run that is cancelled during a call**: up to the file it goes as it would have gone, the
file's task goes on without being written, and nothing happens after it. -/
theorem run_of_call (hload : StoredNotebook.loadAll w.disk paths = .ok (first ++ file :: later)) :
    ∃ own after, run formatter plan paths w =
        (.ok (stopped formatter.calm plan first w own later after), after) ∧
      after.cancelled = true ∧ after.disk = ((inOrder plan first).run formatter.calm w).2.disk ∧
      (∀ outcome, own = some outcome → outcome.path? = some file.path) ∧
      ¬ IsReformatted file.path own ∧
      after.calls =
        ((task plan file).run formatter ((inOrder plan first).run formatter.calm w).2).2.calls := by
  have hsame : (inOrder plan first).run formatter w = (inOrder plan first).run formatter.calm w :=
    Task.run_eq_calm hraises hbefore
  obtain ⟨results, between, hfirst⟩ :
      ∃ results between, (inOrder plan first).run formatter.calm w = (results, between) :=
    ⟨_, _, rfl⟩
  have hcalm : between.cancelled = false := by
    have hcancelled := Task.cancelled_calm formatter (inOrder plan first) w
    rw [hfirst] at hcancelled
    exact hcancelled.trans hw
  rw [callsOver_snoc, hfirst] at hduring
  rw [callsOver, hfirst] at hbefore
  obtain ⟨hdisk, hnot⟩ := spared_of_call hraises file hcalm hbefore hduring
  have hcancelled := Task.cancelled_of_call hraises hbefore hduring
  rw [hfirst]
  refine ⟨((task plan file).run formatter between).1,
    ((task plan file).run formatter between).2, ?_, hcancelled, hdisk,
    fun outcome => path_of_task, hnot, rfl⟩
  rw [run, hload, stopped]
  simp only [run_inOrder_append, hsame, hfirst, run_inOrder_cons,
    run_inOrder_of_cancelled later hcancelled]

end

/-- **Cancellation stops a sequential run cleanly.**  The files of a run can be loaded, their paths
lead to different places, there is one worker at most, and nobody has cancelled.  The formatter is
any formatter that is interrupted during the call after `n` others, and not before; and without
interruptions that call is made for a file between `first` and `later`.  Then the run that nothing
else disturbs, and the one that nothing disturbs at all, are one each, and
* each file before has the same outcomes in both, and the same content afterwards;
* the file itself has the content that it had, there is no outcome that it was written anew, and the
  disk is as the files before have left it;
* each file after it has no outcome and the content that it had;
* the call is made for one of the file's code cells, and the formatter is asked nothing that it
  would not be asked if the file ended with that cell and no other file followed;
* the result is cancelled and is not clean. -/
theorem runs_cancelled_cleanly {paths : List Text} {w : World} {first later : List StoredNotebook}
    {file : StoredNotebook} (hworkers : plan.workers ≤ 1) (hw : w.cancelled = false)
    (hload : StoredNotebook.loadAll w.disk paths = .ok (first ++ file :: later))
    (hdistinct : (paths.map w.disk.resolve).Nodup) (hraises : formatter.RaisesAt n)
    (hbefore : (callsOver formatter.calm plan first w).length ≤ n)
    (hduring : n < (callsOver formatter.calm plan (first ++ [file]) w).length) :
    ∃ r after r' after',
      (∀ s v, Runs formatter plan paths w s v ∧ w.Undisturbed formatter v ↔ s = r ∧ v = after) ∧
      (∀ s v, Runs formatter.calm plan paths w s v ∧ w.Undisturbed formatter.calm v ↔
        s = r' ∧ v = after') ∧ r'.cancelled = false ∧
      (∀ other ∈ first, r.outcomesOf other.path = r'.outcomesOf other.path ∧
        after.disk.read other.path = after'.disk.read other.path) ∧
      (after.disk.read file.path = w.disk.read file.path ∧
        (∀ rejections, .ok ⟨file.path, .reformatted, rejections⟩ ∉ r.outcomes) ∧
        after.disk = ((inOrder plan first).run formatter.calm w).2.disk) ∧
      (∀ other ∈ later, r.outcomesOf other.path = [] ∧
        after.disk.read other.path = w.disk.read other.path) ∧
      (∃ before cell rest, file.notebook.cells = before ++ .code cell :: rest ∧
        (callsOver formatter.calm plan (first ++ [file.withCells before]) w).length ≤ n ∧
        after.calls =
          callsOver formatter.calm plan (first ++ [file.withCells (before ++ [.code cell])]) w) ∧
      r.cancelled = true ∧ r.isClean = false := by
  have honly {f : Formatter} {r : BatchResult} {after : World}
      (hrun : run f plan paths w = (.ok r, after)) (s : BatchResult) (v : World) :
      Runs f plan paths w s v ∧ w.Undisturbed f v ↔ s = r ∧ v = after := by
    rw [runs_undisturbed_iff hworkers, hrun, Prod.mk.injEq, Except.ok.injEq]
    exact and_congr eq_comm eq_comm
  -- the two runs
  obtain ⟨own, after, hrun, hcancelled, hdisk, hown, hnot, hcalls⟩ :=
    run_of_call hraises hw hbefore hduring hload
  have hrun' : run formatter.calm plan paths w =
      (.ok (result ((inOrder plan (first ++ file :: later)).run formatter.calm w).1
        ((inOrder plan (first ++ file :: later)).run formatter.calm w).2),
        ((inOrder plan (first ++ file :: later)).run formatter.calm w).2) := by
    rw [run, hload]
  have hcalm := (Task.cancelled_calm formatter (inOrder plan (first ++ file :: later)) w).trans hw
  -- the files lie apart, and their paths are different
  have hnodup : ((first ++ file :: later).map StoredNotebook.path).Nodup :=
    (of_loadAll hload).1 ▸ hdistinct.of_map _
  obtain ⟨hfirst, hrest⟩ :=
    @reads_of_append formatter.calm plan paths w first (file :: later) hload hdistinct
  obtain ⟨before, cell, rest, hcells, hle, hcut⟩ := calls_of_call hraises hw hbefore hduring
  refine ⟨_, after, _, _, honly hrun, honly hrun', hcalm, fun other hother => ⟨?_, ?_⟩,
    ⟨?_, not_reformatted_stopped hnodup hnot, hdisk⟩, fun other hother => ⟨?_, ?_⟩,
    ⟨before, cell, rest, hcells, hle, hcalls.trans hcut⟩, hcancelled, ?_⟩
  · exact outcomesOf_before hnodup hown hother _
  · rw [hdisk, hfirst other hother]
  · rw [hdisk, hrest file List.mem_cons_self]
  · exact outcomesOf_later hnodup hown hother
  · rw [hdisk, hrest other (List.mem_cons_of_mem _ hother)]
  · rw [BatchResult.isClean, stopped, result, hcancelled]
    rfl

/-- A document with two code cells. -/
def twoCells : Text :=
  ("\x7b\"cells\":[\x7b\"cell_type\":\"code\",\"source\":\"x=1\"\x7d," ++
    "\x7b\"cell_type\":\"code\",\"source\":\"y=2\"\x7d]\x7d").toList

/-- The file with this source in each of its code cells. -/
def storedCells (path : Text) (sources : List Text) : StoredNotebook :=
  ⟨path, [], sources.map fun source =>
    .code ⟨[(kindKey, .string codeKind)], .text, [source], []⟩, [], .compact⟩

/-- A file system with three files, of which the second has two cells. -/
def threeFiles : FileSystem :=
  ⟨[(["a.ipynb".toList], .file (Utf8.encode oneCell) Permission.ofFile),
    (["b.ipynb".toList], .file (Utf8.encode twoCells) Permission.ofFile),
    (["c.ipynb".toList], .file (Utf8.encode oneCell) Permission.ofFile)], []⟩

/-- A run over three files that is cancelled in the first cell of the second: the first is written,
the other two are as they were, and no other cell is heard of. -/
theorem cancelled_in_second_of_three :
    ∃ r after, Runs (Spacing.formatter.raisedAt 1) ⟨.format, 1, .standard⟩
        ["/a.ipynb".toList, "/b.ipynb".toList, "/c.ipynb".toList] (.start threeFiles) r after ∧
      r.outcomes = [.ok ⟨"/a.ipynb".toList, .reformatted, .empty⟩] ∧ after.calls.length = 2 ∧
      after.disk.read "/b.ipynb".toList = threeFiles.read "/b.ipynb".toList ∧
      after.disk.read "/c.ipynb".toList = threeFiles.read "/c.ipynb".toList ∧
      r.cancelled = true ∧ r.isClean = false := by
  have hload : StoredNotebook.loadAll (World.start threeFiles).disk
      ["/a.ipynb".toList, "/b.ipynb".toList, "/c.ipynb".toList] =
        .ok ([storedCells "/a.ipynb".toList ["x=1".toList]] ++
          storedCells "/b.ipynb".toList ["x=1".toList, "y=2".toList] ::
            [storedCells "/c.ipynb".toList ["x=1".toList]]) := rfl
  obtain ⟨r, after, -, -, honly, -, -, -, ⟨hread, -⟩, hlater, -, hcancelled, hclean⟩ :=
    @runs_cancelled_cleanly (Spacing.formatter.raisedAt 1) ⟨.format, 1, .standard⟩ 1 _
      (.start threeFiles) _ _ _ (Nat.le_refl 1) rfl hload (by decide)
      (Formatter.raisesAt_raisedAt _ 1) (Nat.le_of_eq rfl)
      (Nat.lt_of_lt_of_eq (Nat.lt_succ_of_lt (Nat.lt_succ_self 1)) rfl)
  have hruns := ((honly r after).mpr ⟨rfl, rfl⟩)
  have hrun := (runs_undisturbed_iff (Nat.le_refl 1)).mp hruns
  refine ⟨r, after, hruns.1, ?_, ?_, hread, (hlater _ List.mem_cons_self).2, hcancelled, hclean⟩
  · cases hrun
    rfl
  · cases hrun
    rfl

end Batch
end NotebookTidy
