import NotebookTidy.Proofs.CompleteRuns
import NotebookTidy.Proofs.WholeFiles

/-!
# What a run does to its files

At every moment of a run each of its files has its original content or the whole document of its
formatted notebook, and in the end it has another content exactly if it is reported as written
anew.  A check writes nothing, and neither does a run with a file that cannot be loaded
(`run_keeps_files_whole`).

That a file written anew has another content is no matter of course: it is written because the
fragments of a source changed, and two notebooks that differ in a fragment have different documents
because each is read back from its own.
-/

namespace NotebookTidy

/-! ## Loading -/

namespace StoredNotebook

/-- A file that cannot be loaded is reported as a faulty notebook at its path. -/
theorem error_of_load {disk : FileSystem} {path : Text} {error : RunError}
    (h : load disk path = .error error) : ∃ fault, error = .notebook path fault := by
  unfold load at h
  split at h
  · cases h
    exact ⟨_, rfl⟩
  · split at h
    · cases h
      exact ⟨_, rfl⟩
    · cases h

/-- Loading ends with the first file that cannot be loaded. -/
theorem loadAll_eq_error {disk : FileSystem} {before rest : List Text} {path : Text}
    {error : RunError} (hbefore : ∀ q ∈ before, ∃ file, load disk q = .ok file)
    (h : load disk path = .error error) :
    loadAll disk (before ++ path :: rest) = .error error := by
  induction before with
  | nil =>
    rw [List.nil_append, loadAll, h]
  | cons first before ih =>
    obtain ⟨⟨file, hfile⟩, hbefore⟩ := List.forall_mem_cons.mp hbefore
    rw [List.cons_append, loadAll, hfile, ih hbefore]
    rfl

end StoredNotebook

/-- **A notebook that formatting changed has another document**, in octets too: a document is read
as one notebook only, and what is written is read as what was written. -/
theorem Notebook.encode_write_ne {document : Text} {n : Notebook} {octets : Octets}
    {texts : List Text} (hdecode : Utf8.decode octets = .ok document)
    (hread : read document = .ok n) (hlength : texts.length = n.codeCells.length)
    (hchanged : n.setSources texts ≠ n) : Utf8.encode (n.setSources texts).write ≠ octets := by
  intro heq
  have hdocument : document = (n.setSources texts).write := by
    rw [← heq, Utf8.decode_encode] at hdecode
    exact (Except.ok.inj hdecode).symm
  have hagain := read_write_setSources hread hlength
  rw [← hdocument, hread] at hagain
  injection hagain with hsame
  have hcells : n.cells = Cell.setSources texts n.cells := congrArg (fun m => m.cells) hsame
  refine hchanged ?_
  unfold setSources
  rw [← hcells]

namespace Batch

/-- Files at distinct canonical paths that were loaded lie apart. -/
theorem apart_of_loadAll {disk : FileSystem} {paths : List Text} {files : List StoredNotebook}
    (hdisk : disk.WellFormed) (hcanonical : ∀ path ∈ paths, ∃ location, disk.Canonical path location)
    (hdistinct : paths.Nodup) (hload : StoredNotebook.loadAll disk paths = .ok files) :
    Pool.Apart disk files := by
  obtain ⟨hpaths, hloads⟩ := of_loadAll hload
  refine ⟨fun file hfile => ?_, hpaths ▸ hdistinct⟩
  obtain ⟨-, octets, -, hread, -, -⟩ :=
    of_load (hloads file hfile)
  obtain ⟨location, hlocation⟩ := hcanonical file.path (hpaths ▸ List.mem_map_of_mem hfile)
  obtain ⟨directory, name, bits, rfl, hstraight, hnode, hgrants⟩ :=
    FileSystem.straight_of_canonical hdisk hlocation hread
  exact ⟨directory, name, octets, hstraight, bits, hnode, hgrants⟩

/-- **One file in the course of a run**, by its history: it has been left as it was, or it has the
whole document of its notebook with the texts that its cells were formatted to, and then it is
another document, and the file's task will report that it was written anew. -/
theorem Pool.History.file_whole {formatter : Formatter} {plan : BatchPlan} {w : World}
    {files : List StoredNotebook} {log : List (Nat × Event)} {p : Pool}
    (h : History formatter plan files w log p) (hapart : Apart w.disk files)
    {position : Nat} {file : StoredNotebook} (hfile : files[position]? = some file)
    (hload : StoredNotebook.load w.disk file.path = .ok file)
    {t : Task (Option Outcome)} (ht : p.tasks[position]? = some t) :
    (p.world.disk.read file.path = w.disk.read file.path ∧
        ∀ result, t = .done result → ¬ IsReformatted file.path result) ∨
      plan.action = .format ∧ ∃ es texts rejections,
        Reformats plan.mode file.notebook.codeCells .empty es texts rejections ∧
        (es.filterMap Event.exchange?).Sublist (World.exchangesSince formatter w p.world) ∧
        p.world.disk.read file.path = .ok (Utf8.encode (file.notebook.setSources texts).write) ∧
        p.world.disk.read file.path ≠ w.disk.read file.path ∧
        ∀ result, t = .done result → IsReformatted file.path result := by
  have hwhole := h.whole hapart
  have hmem := List.mem_of_getElem? hfile
  obtain ⟨-, octets, document, hread, hdecode, hdocument⟩ := of_load hload
  obtain ⟨directory, name, octets', hplace, hstraight, hhas⟩ := hapart.place hmem
  have hnow := hstraight.mono hwhole.directories
  have hreads {content : Octets} (hcontent : p.world.disk.HasFile file.place content) :
      p.world.disk.read file.path = .ok content := hnow.read_hasFile (hplace ▸ hcontent)
  have hoctets : octets' = octets := by
    rw [hstraight.read_hasFile (hplace ▸ hhas)] at hread
    exact Except.ok.inj hread
  subst hoctets
  rcases phases_task (h.trace hfile ht) with
    ⟨hquiet, hresult⟩ | ⟨haction, es, texts, rejections, phase, hsublist, hreformats, hchanged,
      hphases, hresult⟩
  · -- no change so far is the first phase, whatever the content
    have huntouched := hwhole.holds position file [] .untouched octets' hfile
      (.of_quiet hquiet _) hhas
    exact Or.inl ⟨(hreads huntouched).trans hread.symm, hresult⟩
  · have hholds := (hwhole.holds position file _ phase octets' hfile hphases hhas).hasFile
    split at hholds
    · next hreplaced =>
      refine Or.inr ⟨haction, es, texts, rejections, hreformats, ?_, hreads hholds, ?_,
        fun result hdone => (hresult result hdone).1.mpr hreplaced⟩
      · rw [h.follows.exchangesSince_eq]
        exact (hsublist.trans (own_sublist position log)).filterMap _
      · rw [hreads hholds, hread]
        exact fun heq => Notebook.encode_write_ne hdecode hdocument hreformats.length_texts
          hchanged (Except.ok.inj heq)
    · next hreplaced =>
      exact Or.inl ⟨(hreads hholds).trans hread.symm,
        fun result hdone hreformatted => hreplaced ((hresult result hdone).1.mp hreformatted)⟩

/-- **A check leaves the disk as it is**, whatever else happens. -/
theorem Pool.History.disk_of_check {formatter : Formatter} {plan : BatchPlan} {w : World}
    {files : List StoredNotebook} {log : List (Nat × Event)} {p : Pool}
    (h : History formatter plan files w log p) (haction : plan.action = .check) :
    p.world.disk = w.disk := by
  induction h with
  | start => rfl
  | interrupt h begun ih => exact ih
  | @move log p h position t u e v begun at_position takes gives ih =>
    obtain ⟨file, hfile, htrace⟩ := h.moved at_position takes
    have hquiet : e.isChange = false := by
      refine quiet_task haction file _ u htrace e ?_
      rw [own_snoc_self]
      exact List.mem_append_right _ List.mem_cons_self
    exact (gives.disk_of_not_change hquiet).trans ih

/-- **That a file was written anew is reported by its own task**, and by no other. -/
theorem Pool.History.reported_iff {formatter : Formatter} {plan : BatchPlan} {w after : World}
    {files : List StoredNotebook} {results : List (Option Outcome)} {begun : List Bool}
    {log : List (Nat × Event)}
    (h : History formatter plan files w log ⟨results.map .done, begun, after⟩)
    (hdistinct : (files.map StoredNotebook.path).Nodup) {position : Nat} {file : StoredNotebook}
    (hfile : files[position]? = some file) {last : Option Outcome}
    (hlast : results[position]? = some last) :
    (∃ rejections, .ok ⟨file.path, .reformatted, rejections⟩ ∈ (result results after).outcomes) ↔
      IsReformatted file.path last := by
  have hlength : results.length = files.length := by simpa using h.length_tasks
  constructor
  · rintro ⟨rejections, houtcome⟩
    obtain ⟨found, hfound, hsome⟩ := List.mem_filterMap.mp houtcome
    obtain ⟨position', hlt, rfl⟩ := List.mem_iff_getElem.mp hfound
    have hother : files[position']? = some files[position'] :=
      List.getElem?_eq_getElem (hlength ▸ hlt)
    have htrace := h.trace hother (t := .done results[position']) (by simp [hlt])
    have htells := meets_task plan _ _ _ htrace
    rw [show results[position'] = some _ from hsome] at htells
    have hsame : file.path = files[position'].path := Option.some.inj htells.path_eq
    -- the paths are distinct, so the task with that outcome is the file's own
    have heq : position' = position := by
      refine (List.getElem?_inj (by simpa [← hlength] using hlt) hdistinct).mp ?_
      simp [hother, hfile, hsame]
    subst heq
    rw [List.getElem?_eq_getElem hlt] at hlast
    exact ⟨rejections, (Option.some.inj hlast).symm.trans hsome⟩
  · rintro ⟨rejections, rfl⟩
    exact ⟨rejections, List.mem_filterMap.mpr ⟨_, List.mem_of_getElem? hlast, rfl⟩⟩

/-- **What a run reports of its files**: one has another content in the end exactly if its outcome
is that it was written anew. -/
theorem Runs.read_ne_iff {formatter : Formatter} {plan : BatchPlan} {paths : List Text} {w : World}
    {r : BatchResult} {after : World} (h : Runs formatter plan paths w r after)
    (hdisk : w.disk.WellFormed)
    (hcanonical : ∀ path ∈ paths, ∃ location, w.disk.Canonical path location)
    (hdistinct : paths.Nodup) {path : Text} (hpath : path ∈ paths) :
    after.disk.read path ≠ w.disk.read path ↔
      ∃ rejections, .ok ⟨path, .reformatted, rejections⟩ ∈ r.outcomes := by
  obtain ⟨files, results, log, hload, hlog, rfl⟩ := h.history
  have hapart := apart_of_loadAll hdisk hcanonical hdistinct hload
  obtain ⟨hpaths, hloads⟩ := of_loadAll hload
  rw [← hpaths] at hpath
  obtain ⟨file, hmem, rfl⟩ := List.mem_map.mp hpath
  obtain ⟨position, hlt, rfl⟩ := List.mem_iff_getElem.mp hmem
  have hfile : files[position]? = some files[position] := List.getElem?_eq_getElem hlt
  have hlength : results.length = files.length := by simpa using hlog.length_tasks
  have hlast : results[position]? = some results[position] :=
    List.getElem?_eq_getElem (hlength ▸ hlt)
  rw [hlog.reported_iff hapart.distinct hfile hlast]
  rcases hlog.file_whole hapart hfile (hloads _ hmem)
      (t := .done results[position]) (by simp [hlast]) with
    ⟨hread, hnot⟩ | ⟨-, es, texts, rejections, -, -, -, hread, his⟩
  · exact ⟨fun hne => absurd hread hne, fun his => absurd his (hnot _ rfl)⟩
  · exact ⟨fun _ => his _ rfl, fun _ => hread⟩

/-- **Files are never left half-written.**  Whatever the tasks of a run over distinct canonical
paths do, in whatever order, with whatever formatter and whenever the run is cancelled, each file
has its original content or the whole document of its notebook with the sources of all code cells
formatted; when the run ends, those with another content are those reported as written anew.  A
check changes nothing on disk.  If a file cannot be loaded, the run ends with the error of the
first such file, without a call of the formatter and without a change of the disk. -/
theorem run_keeps_files_whole {formatter : Formatter} {plan : BatchPlan} {paths : List Text}
    {w : World} (hdisk : w.disk.WellFormed) (hdistinct : paths.Nodup) :
    ((∀ path ∈ paths, ∃ location, w.disk.Canonical path location) →
      (∀ files, StoredNotebook.loadAll w.disk paths = .ok files →
        ∀ p, Reaches formatter plan files w p → ∀ file ∈ files,
          ∃ octets, w.disk.read file.path = .ok octets ∧
            (p.world.disk.read file.path = .ok octets ∨
              plan.action = .format ∧ ∃ es texts rejections,
                Reformats plan.mode file.notebook.codeCells .empty es texts rejections ∧
                (es.filterMap Event.exchange?).Sublist
                  (World.exchangesSince formatter w p.world) ∧
                p.world.disk.read file.path =
                  .ok (Utf8.encode (file.notebook.setSources texts).write))) ∧
      ∀ r after, Runs formatter plan paths w r after → ∀ path ∈ paths,
        (after.disk.read path ≠ w.disk.read path ↔
          ∃ rejections, .ok ⟨path, .reformatted, rejections⟩ ∈ r.outcomes)) ∧
    (plan.action = .check →
      ∀ files p, Reaches formatter plan files w p → p.world.disk = w.disk) ∧
    (∀ before path rest error, paths = before ++ path :: rest →
      (∀ other ∈ before, ∃ file, StoredNotebook.load w.disk other = .ok file) →
      StoredNotebook.load w.disk path = .error error →
        (∃ fault, error = .notebook path fault) ∧
        run formatter plan paths w = (.error error, w) ∧
        ∀ r after, ¬ Runs formatter plan paths w r after) := by
  refine ⟨fun hcanonical => ⟨?_, ?_⟩, ?_, ?_⟩
  · intro files hload p hreaches file hmem
    have hapart := apart_of_loadAll hdisk hcanonical hdistinct hload
    have hfileLoad := (of_loadAll hload).2 file hmem
    obtain ⟨-, octets, -, hread, -, -⟩ := of_load hfileLoad
    obtain ⟨log, hlog⟩ := hreaches.history
    obtain ⟨position, hlt, hfile⟩ := List.mem_iff_getElem.mp hmem
    have hfile' : files[position]? = some file := hfile ▸ List.getElem?_eq_getElem hlt
    rw [← hlog.length_tasks] at hlt
    refine ⟨octets, hread, ?_⟩
    rcases hlog.file_whole hapart hfile' hfileLoad (List.getElem?_eq_getElem hlt) with
      ⟨hsame, -⟩ | ⟨haction, es, texts, rejections, hreformats, hcalls, hwritten, -, -⟩
    · exact Or.inl (hsame.trans hread)
    · exact Or.inr ⟨haction, es, texts, rejections, hreformats, hcalls, hwritten⟩
  · exact fun r after hruns path => hruns.read_ne_iff hdisk hcanonical hdistinct
  · intro haction files p hreaches
    obtain ⟨log, hlog⟩ := hreaches.history
    exact hlog.disk_of_check haction
  · rintro before path rest error rfl hbefore herror
    have hload : StoredNotebook.loadAll w.disk (before ++ path :: rest) = .error error :=
      StoredNotebook.loadAll_eq_error hbefore herror
    refine ⟨StoredNotebook.error_of_load herror, ?_, ?_⟩
    · rw [run, hload]
    · rintro r after ⟨files, results, hloaded, -, -⟩
      rw [hload] at hloaded
      cases hloaded

/-- A file whose code lacks spaces is another one after a run, and that is what is reported. -/
theorem written_of_spacing :
    ∃ r after, Runs Spacing.formatter ⟨.format, 1, .standard⟩ ["/a.ipynb".toList] (.start oneFile) r
        after ∧
      r.outcomes = [.ok ⟨"/a.ipynb".toList, .reformatted, .empty⟩] ∧
      after.disk.read "/a.ipynb".toList ≠ oneFile.read "/a.ipynb".toList := by
  have hruns := @runs_of_run Spacing.formatter ⟨.format, 1, .standard⟩ ["/a.ipynb".toList]
    (.start oneFile) _ _ rfl
  have hdisk : (World.start oneFile).disk.WellFormed := by
    refine ⟨List.nodup_singleton _, fun entry hentry => ?_⟩
    cases List.mem_singleton.mp hentry
    exact ⟨List.cons_ne_nil _ _, _, rfl⟩
  have hcanonical : ∀ path ∈ ["/a.ipynb".toList],
      ∃ location, (World.start oneFile).disk.Canonical path location := by
    intro path hpath
    cases List.mem_singleton.mp hpath
    exact ⟨["a.ipynb".toList], rfl, rfl⟩
  have hread := ((run_keeps_files_whole hdisk (List.nodup_singleton _)).1 hcanonical).2 _ _ hruns _
    List.mem_cons_self
  exact ⟨_, _, hruns, rfl, hread.mpr ⟨.empty, List.mem_cons_self⟩⟩

end Batch
end NotebookTidy
