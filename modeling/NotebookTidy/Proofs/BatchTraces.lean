import Mathlib.Algebra.BigOperators.Group.Finset.Piecewise
import NotebookTidy.Batch.Schedule
import NotebookTidy.Proofs.TaskTraces

/-!
# The history of a pool

While several tasks share a world, all that happens is one list of events, each marked with the
position of the task that took it: the **history** of the pool (`Pool.History`).  It is a history
in two ways.  The world follows it as a whole, so it holds everything that the formatter was asked
and everything that was done to the disk, in order.  And each task follows its own events
(`Pool.own`), picked out of it: what a task goes through in company it could also go through alone,
if the world answered it so.

Every property of all runs is proved over histories.  `Reaches.history` and `Runs.history` say that
nothing is lost by that.
-/

namespace NotebookTidy
namespace Batch
namespace Pool

/-- The events of the task at a position. -/
def own (position : Nat) (log : List (Nat × Event)) : List Event :=
  log.filterMap fun entry => if entry.1 = position then some entry.2 else none

/-- **A pool with its history**: how it came about from files in a world. -/
inductive History (formatter : Formatter) (plan : BatchPlan) (files : List StoredNotebook)
    (w : World) : List (Nat × Event) → Pool → Prop where
  | start : History formatter plan files w [] (Pool.start plan files w)
  | move {log : List (Nat × Event)} {p : Pool} (h : History formatter plan files w log p)
    (position : Nat) {t u : Task (Option Outcome)} {e : Event} {v : World} (begun : List Bool)
    (at_position : p.tasks[position]? = some t) (takes : Task.Takes t e u)
    (gives : World.Gives formatter p.world e v) :
    History formatter plan files w (log ++ [(position, e)]) ⟨p.tasks.set position u, begun, v⟩
  | interrupt {log : List (Nat × Event)} {p : Pool} (h : History formatter plan files w log p)
    (begun : List Bool) :
    History formatter plan files w log ⟨p.tasks, begun, p.world.interrupted⟩

/-! ## A task's own events -/

@[simp] theorem own_nil (position : Nat) : own position [] = [] := rfl

theorem own_cons (position : Nat) (entry : Nat × Event) (log : List (Nat × Event)) :
    own position (entry :: log) =
      if entry.1 = position then entry.2 :: own position log else own position log := by
  by_cases h : entry.1 = position <;> simp [own, h]

theorem own_snoc_self (position : Nat) (e : Event) (log : List (Nat × Event)) :
    own position (log ++ [(position, e)]) = own position log ++ [e] := by
  simp [own]

theorem own_snoc_other {position other : Nat} (h : other ≠ position) (e : Event)
    (log : List (Nat × Event)) : own position (log ++ [(other, e)]) = own position log := by
  simp [own, h]

/-- A task's own events are events of the pool, in the same order. -/
theorem own_sublist (position : Nat) (log : List (Nat × Event)) :
    (own position log).Sublist (log.map Prod.snd) := by
  induction log with
  | nil => exact .slnil
  | cons entry log ih =>
    rw [own_cons]
    by_cases h : entry.1 = position
    · rw [if_pos h]
      exact ih.cons_cons _
    · rw [if_neg h]
      exact ih.cons _

/-- **Counting events task by task** is counting all events, if none is of a task that is not
there. -/
theorem sum_countP_own (q : Event → Bool) (n : Nat) (log : List (Nat × Event))
    (h : ∀ entry ∈ log, entry.1 < n) :
    ∑ position ∈ Finset.range n, (own position log).countP q =
      (log.map Prod.snd).countP q := by
  induction log with
  | nil => simp
  | cons entry log ih =>
    have hrest := ih fun other hother => h other (List.mem_cons_of_mem _ hother)
    have hentry : entry.1 ∈ Finset.range n := Finset.mem_range.mpr (h entry List.mem_cons_self)
    -- the first event counts for one position only, the one of its task
    have hcount (position : Nat) :
        (own position (entry :: log)).countP q =
          (own position log).countP q +
            if entry.1 = position then (if q entry.2 then 1 else 0) else 0 := by
      rw [own_cons]
      by_cases he : entry.1 = position <;> simp [he, List.countP_cons]
    simp only [hcount, Finset.sum_add_distrib, hrest, Finset.sum_ite_eq, hentry, if_true,
      List.map_cons, List.countP_cons]

/-! ## What a history says -/

namespace History
variable {formatter : Formatter} {plan : BatchPlan} {files : List StoredNotebook} {w : World}
  {log : List (Nat × Event)} {p : Pool}

theorem length_tasks (h : History formatter plan files w log p) :
    p.tasks.length = files.length := by
  induction h with
  | start => simp [Pool.start]
  | move h position begun at_position takes gives ih => simpa using ih
  | interrupt h begun ih => exact ih

/-- The world follows the history as a whole. -/
theorem follows (h : History formatter plan files w log p) :
    World.Follows formatter w (log.map Prod.snd) p.world := by
  induction h with
  | start => exact .refl w
  | move h position begun at_position takes gives ih =>
    rw [List.map_append]
    exact ih.snoc gives
  | interrupt h begun ih =>
    simpa using ih.trans (.interrupt (.refl _))

theorem position_lt (h : History formatter plan files w log p) :
    ∀ entry ∈ log, entry.1 < files.length := by
  induction h with
  | start => simp
  | move h position begun at_position takes gives ih =>
    intro entry hentry
    rcases List.mem_append.mp hentry with hentry | hentry
    · exact ih entry hentry
    · obtain ⟨hlt, -⟩ := List.getElem?_eq_some_iff.mp at_position
      rw [List.mem_singleton.mp hentry, ← h.length_tasks]
      exact hlt
  | interrupt h begun ih => exact ih

/-- **Each task follows its own events.** -/
theorem trace (h : History formatter plan files w log p) {position : Nat}
    {file : StoredNotebook} {t : Task (Option Outcome)} (hfile : files[position]? = some file)
    (ht : p.tasks[position]? = some t) :
    Task.Trace (task plan file) (own position log) t := by
  induction h generalizing t with
  | start =>
    have hstart : task plan file = t := by simpa [Pool.start, hfile] using ht
    rw [hstart]
    exact .refl t
  | @move log p h moved t' u e v begun at_position takes gives ih =>
    by_cases hmoved : moved = position
    · -- the task that moved has one event more
      subst hmoved
      obtain ⟨hlt, -⟩ := List.getElem?_eq_some_iff.mp at_position
      have hu : u = t := by simpa [List.getElem?_set_self hlt] using ht
      rw [own_snoc_self, ← hu]
      exact (ih at_position).snoc takes
    · rw [own_snoc_other hmoved]
      rw [List.getElem?_set_ne hmoved] at ht
      exact ih ht
  | interrupt h begun ih => exact ih ht

/-- A task that moves is a file's, and follows that file's events with the new one. -/
theorem moved (h : History formatter plan files w log p) {position : Nat}
    {t u : Task (Option Outcome)} {e : Event} (at_position : p.tasks[position]? = some t)
    (takes : Task.Takes t e u) :
    ∃ file, files[position]? = some file ∧
      Task.Trace (task plan file) (own position (log ++ [(position, e)])) u := by
  obtain ⟨hlt, -⟩ := List.getElem?_eq_some_iff.mp at_position
  rw [h.length_tasks] at hlt
  have hfile : files[position]? = some files[position] := List.getElem?_eq_getElem hlt
  refine ⟨files[position], hfile, ?_⟩
  rw [own_snoc_self]
  exact (h.trace hfile at_position).snoc takes

end History

/-! ## Every schedule has a history -/

variable {formatter : Formatter} {plan : BatchPlan} {files : List StoredNotebook} {w : World}

theorem Step.history {workers : Nat} {p q : Pool} {log : List (Nat × Event)}
    (h : Step formatter workers p q) (hp : History formatter plan files w log p) :
    ∃ log', History formatter plan files w log' q := by
  cases h with
  | move position t u v at_position may_move step =>
    rcases step.cases with ⟨e, takes, gives⟩ | ⟨rfl, rfl⟩
    · exact ⟨_, hp.move position _ at_position takes gives⟩
    · -- an interruption moves no task
      obtain ⟨hlt, rfl⟩ := List.getElem?_eq_some_iff.mp at_position
      rw [List.set_getElem_self]
      exact ⟨_, hp.interrupt _⟩
  | interrupt => exact ⟨_, hp.interrupt _⟩

theorem Steps.history {workers : Nat} {p q : Pool} {log : List (Nat × Event)}
    (h : Steps formatter workers p q) (hp : History formatter plan files w log p) :
    ∃ log', History formatter plan files w log' q := by
  induction h generalizing log with
  | refl p => exact ⟨log, hp⟩
  | head first rest ih =>
    obtain ⟨log', hnext⟩ := first.history hp
    exact ih hnext

end Pool

variable {formatter : Formatter} {plan : BatchPlan} {w : World}

theorem Reaches.history {files : List StoredNotebook} {p : Pool}
    (h : Reaches formatter plan files w p) :
    ∃ log, Pool.History formatter plan files w log p :=
  Pool.Steps.history h .start

/-- **What lies behind a result**: the files that were loaded, what became of each, and the history
in which it became so. -/
theorem Runs.history {paths : List Text} {r : BatchResult} {after : World}
    (h : Runs formatter plan paths w r after) :
    ∃ files results log, StoredNotebook.loadAll w.disk paths = .ok files ∧
      Pool.History formatter plan files w log
        ⟨results.map .done, files.map fun _ => true, after⟩ ∧
      r = result results after := by
  obtain ⟨files, results, hload, hreaches, hr⟩ := h
  obtain ⟨log, hlog⟩ := hreaches.history
  exact ⟨files, results, log, hload, hlog, hr⟩

/-! ## Files that are loaded -/

/-- What was loaded is the notebook of the document that the octets of the file decode to. -/
theorem of_load {disk : FileSystem} {path : Text} {file : StoredNotebook}
    (h : StoredNotebook.load disk path = .ok file) :
    file.path = path ∧ ∃ octets document, disk.read path = .ok octets ∧
      Utf8.decode octets = .ok document ∧ Notebook.read document = .ok file.notebook := by
  unfold StoredNotebook.load at h
  split at h
  · cases h
  · next octets hread =>
    split at h
    · cases h
    · next n hn =>
      cases h
      refine ⟨rfl, octets, ?_⟩
      unfold Notebook.ofOctets at hn
      split at hn
      · cases hn
      · next document hdocument => exact ⟨document, hread, hdocument, hn⟩

/-- **Files that are loaded** are those at the paths, in order, and each is what its path was loaded
as. -/
theorem of_loadAll {disk : FileSystem} {paths : List Text} {files : List StoredNotebook}
    (h : StoredNotebook.loadAll disk paths = .ok files) :
    files.map StoredNotebook.path = paths ∧
      ∀ file ∈ files, StoredNotebook.load disk file.path = .ok file := by
  induction paths generalizing files with
  | nil =>
    cases h
    exact ⟨rfl, nofun⟩
  | cons path rest ih =>
    unfold StoredNotebook.loadAll at h
    split at h
    · cases h
    · next first hfirst =>
      rcases hrest : StoredNotebook.loadAll disk rest with error | others
      · rw [hrest] at h
        cases h
      · rw [hrest] at h
        cases h
        obtain ⟨hpaths, hothers⟩ := ih hrest
        have hpath : first.path = path := (of_load hfirst).1
        refine ⟨by rw [List.map_cons, hpath, hpaths], List.forall_mem_cons.mpr ⟨?_, hothers⟩⟩
        rw [hpath]
        exact hfirst

end Batch
end NotebookTidy
