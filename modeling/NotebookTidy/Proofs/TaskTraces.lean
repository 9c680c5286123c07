import NotebookTidy.Task

/-!
# What a task goes through

A task is a tree, and carrying it out takes one path through it.  The nodes on the path together
with the answers that were given there are the task's **trace**: a list of events, each a question
with its answer.  Traces say nothing about the world; they are all that a task could meet with,
whatever the world answers.  What the world can answer is said by itself (`World.Gives`), so a
property of tasks and a property of worlds are proved apart and meet in a run.

A trace of two tasks, one after the other, is cut at the point where the first one ended
(`Trace.bind_cut`); that is how traces of composed tasks are taken apart.

The requests of a run are kept in the world, the answers are not.  They can be found again, since a
formatter's answer depends on nothing but the requests before it: `World.exchanges` lists requests
and answers in the order in which they were made.
-/

namespace NotebookTidy

/-- A question that a task asked, with the answer. -/
inductive Event where
  /-- The formatter answered. -/
  | answered (call : Call) (answer : Formatted)
  /-- Whether the run had been cancelled. -/
  | polled (cancelled : Bool)
  /-- An action on files took place, or could not. -/
  | changed (action : DiskAction) (answer : Except IoFault action.Answer)
  /-- An outcome was announced. -/
  | announced (outcome : Outcome)

/-- What the formatter was asked and answered. -/
def Event.exchange? : Event → Option (Call × Formatted)
  | .answered call answer => some (call, answer)
  | _ => none

/-! ## What worlds answer -/

namespace World

/-- **One event, as a world can give it**, with the world afterwards. -/
inductive Gives (formatter : Formatter) : World → Event → World → Prop where
  | answered (w : World) (call : Call) :
    Gives formatter w (.answered call (formatter w.calls call).result)
      (w.asked call (formatter w.calls call))
  | polled (w : World) : Gives formatter w (.polled w.cancelled) w
  | changed (w : World) (action : DiskAction) :
    Gives formatter w (.changed action (w.perform action).1) (w.perform action).2
  | struck (w : World) (action : DiskAction) (fault : IoFault)
    (h : Task.mayFail action = true) :
    Gives formatter w (.changed action (.error fault)) w.struck
  | announced (w : World) (outcome : Outcome) :
    Gives formatter w (.announced outcome) (w.heard outcome)

/-- Events as a world gives them one after the other; the user may interrupt between any two. -/
inductive Follows (formatter : Formatter) : World → List Event → World → Prop where
  | refl (w : World) : Follows formatter w [] w
  | gives {w v u : World} {e : Event} {es : List Event} (first : Gives formatter w e v)
    (rest : Follows formatter v es u) : Follows formatter w (e :: es) u
  | interrupt {w u : World} {es : List Event} (rest : Follows formatter w.interrupted es u) :
    Follows formatter w es u

/-- Requests, the latest first, with their answers, the earliest first. -/
def exchangesOf (formatter : Formatter) : List Call → List (Call × Formatted)
  | [] => []
  | call :: before =>
    exchangesOf formatter before ++ [(call, (formatter before call).result)]

/-- **What the formatter was asked and answered**, the earliest first. -/
def exchanges (formatter : Formatter) (w : World) : List (Call × Formatted) :=
  exchangesOf formatter w.calls

/-- What the formatter was asked and answered between a world and a later one. -/
def exchangesSince (formatter : Formatter) (w after : World) : List (Call × Formatted) :=
  (after.exchanges formatter).drop w.calls.length

variable {formatter : Formatter}

@[simp] theorem length_exchangesOf (calls : List Call) :
    (exchangesOf formatter calls).length = calls.length := by
  induction calls with
  | nil => rfl
  | cons call before ih => simp [exchangesOf, ih]

@[simp] theorem exchanges_interrupted (w : World) :
    w.interrupted.exchanges formatter = w.exchanges formatter := rfl

/-- An action on files, in whatever way it ends, leaves the rest of the world alone. -/
theorem perform_snd (w : World) (action : DiskAction) :
    (w.perform action).2 = { w with disk := (w.perform action).2.disk } := by
  unfold perform
  rcases w.disk.perform action with fault | ⟨disk, answer⟩ <;> rfl

/-- **How a world answers an action on files**: the action takes place, or it fails as the file
system has it, or for no reason in it. -/
theorem Gives.of_changed {w v : World} {action : DiskAction} {answer : Except IoFault action.Answer}
    (h : Gives formatter w (.changed action answer) v) :
    (∃ done, answer = .ok done ∧ w.disk.perform action = .ok (v.disk, done) ∧
        v.mishaps = w.mishaps) ∨
      ∃ fault, answer = .error fault ∧ v.disk = w.disk ∧
        (w.disk.perform action = .error fault ∧ v.mishaps = w.mishaps ∨
          Task.mayFail action = true ∧ v.mishaps = w.mishaps + 1) := by
  generalize he : Event.changed action answer = e at h
  cases h with
  | changed action' =>
    cases he
    unfold perform
    rcases hperform : w.disk.perform action with fault | ⟨disk, done⟩
    · exact .inr ⟨fault, rfl, rfl, .inl ⟨rfl, rfl⟩⟩
    · exact .inl ⟨done, rfl, rfl, rfl⟩
  | struck action' fault hmay =>
    cases he
    exact .inr ⟨fault, rfl, rfl, .inr ⟨hmay, rfl⟩⟩
  | _ => cases he

theorem Gives.exchanges {w v : World} {e : Event} (h : Gives formatter w e v) :
    v.exchanges formatter = w.exchanges formatter ++ e.exchange?.toList := by
  cases h with
  | answered call => rfl
  | changed action =>
    rw [perform_snd]
    simp [World.exchanges, Event.exchange?]
  | _ => simp [World.exchanges, Event.exchange?, World.struck, World.heard]

/-- No event takes an interruption back. -/
theorem Gives.interrupts_le {w v : World} {e : Event} (h : Gives formatter w e v) :
    w.interrupts ≤ v.interrupts := by
  cases h with
  | answered call => exact Nat.le_add_right _ _
  | changed action => exact Nat.le_of_eq (congrArg World.interrupts (perform_snd w action)).symm
  | _ => exact Nat.le_refl _

theorem Gives.cancelled {w v : World} {answer : Bool}
    (h : Gives formatter w (.polled answer) v) : w.cancelled = answer := by
  cases h
  rfl

namespace Follows

theorem trans {w v u : World} {es fs : List Event} (h : Follows formatter w es v)
    (k : Follows formatter v fs u) : Follows formatter w (es ++ fs) u := by
  induction h with
  | refl => exact k
  | gives first rest ih => exact .gives first (ih k)
  | interrupt rest ih => exact .interrupt (ih k)

theorem snoc {w v u : World} {es : List Event} {e : Event} (h : Follows formatter w es v)
    (k : Gives formatter v e u) : Follows formatter w (es ++ [e]) u :=
  h.trans (.gives k (.refl u))

/-- Events one after the other, cut in two. -/
theorem cut {w u : World} {es fs : List Event} (h : Follows formatter w (es ++ fs) u) :
    ∃ v, Follows formatter w es v ∧ Follows formatter v fs u := by
  generalize hall : es ++ fs = all at h
  induction h generalizing es with
  | refl w =>
    obtain ⟨rfl, rfl⟩ := List.append_eq_nil_iff.mp hall
    exact ⟨w, .refl w, .refl w⟩
  | @gives w v u e rest first onward ih =>
    rcases es with - | ⟨e', es⟩
    · rw [List.nil_append] at hall
      subst hall
      exact ⟨w, .refl w, .gives first onward⟩
    · rw [List.cons_append, List.cons.injEq] at hall
      obtain ⟨rfl, rfl⟩ := hall
      obtain ⟨between, hes, hfs⟩ := ih rfl
      exact ⟨between, .gives first hes, hfs⟩
  | interrupt onward ih =>
    obtain ⟨between, hes, hfs⟩ := ih hall
    exact ⟨between, .interrupt hes, hfs⟩

theorem exchanges {w v : World} {es : List Event} (h : Follows formatter w es v) :
    v.exchanges formatter = w.exchanges formatter ++ es.filterMap Event.exchange? := by
  induction h with
  | refl => simp
  | @gives w v u e es first rest ih =>
    rw [ih, first.exchanges]
    cases he : e.exchange? <;> simp [he]
  | interrupt rest ih => rw [ih, exchanges_interrupted]

/-- **The formatter's answers in a run** are those that its events tell of, in their order. -/
theorem exchangesSince_eq {w v : World} {es : List Event} (h : Follows formatter w es v) :
    exchangesSince formatter w v = es.filterMap Event.exchange? := by
  have hlength : w.calls.length = (w.exchanges formatter).length := by simp [World.exchanges]
  rw [exchangesSince, h.exchanges, hlength, List.drop_left]

theorem interrupts_le {w v : World} {es : List Event} (h : Follows formatter w es v) :
    w.interrupts ≤ v.interrupts := by
  induction h with
  | refl => exact Nat.le_refl _
  | gives first rest ih => exact Nat.le_trans first.interrupts_le ih
  | interrupt rest ih => exact Nat.le_trans (Nat.le_succ _) ih

/-- Whoever was told that the run is cancelled was told so for good. -/
theorem cancelled_of_polled {w v : World} {es : List Event} (h : Follows formatter w es v)
    (hmem : .polled true ∈ es) : v.cancelled = true := by
  induction h with
  | refl => simp at hmem
  | @gives w v u e es first rest ih =>
    rcases List.mem_cons.mp hmem with rfl | hmem
    · -- the world that gave this answer had been interrupted before
      have hw := first.cancelled
      have hle := Nat.le_trans first.interrupts_le rest.interrupts_le
      simp only [World.cancelled, decide_eq_true_eq] at hw ⊢
      omega
    · exact ih hmem
  | interrupt rest ih => exact ih hmem

end Follows
end World

/-! ## Traces -/

namespace Task
variable {α β : Type}

/-- A task goes on after one event. -/
inductive Takes : Task α → Event → Task α → Prop where
  | ask (call : Call) (next : Formatted → Task α) (answer : Formatted) :
    Takes (.ask call next) (.answered call answer) (next answer)
  | poll (next : Bool → Task α) (cancelled : Bool) :
    Takes (.poll next) (.polled cancelled) (next cancelled)
  | disk (action : DiskAction) (next : Except IoFault action.Answer → Task α)
    (answer : Except IoFault action.Answer) :
    Takes (.disk action next) (.changed action answer) (next answer)
  | announce (outcome : Outcome) (next : Task α) :
    Takes (.announce outcome next) (.announced outcome) next

/-- **A trace**: the events on the way from a task to what is left of it. -/
inductive Trace : Task α → List Event → Task α → Prop where
  | refl (t : Task α) : Trace t [] t
  | cons {t s u : Task α} {e : Event} {es : List Event} (first : Takes t e s)
    (rest : Trace s es u) : Trace t (e :: es) u

/-- A step of a task in a world is an event that the task takes and the world gives, or an
interruption that the task does not notice. -/
theorem Step.cases {formatter : Formatter} {t u : Task α} {w v : World}
    (h : Step formatter (t, w) (u, v)) :
    (∃ e, Takes t e u ∧ World.Gives formatter w e v) ∨ (u = t ∧ v = w.interrupted) := by
  cases h with
  | ask call next => exact Or.inl ⟨_, .ask call next _, .answered w call⟩
  | poll next => exact Or.inl ⟨_, .poll next _, .polled w⟩
  | disk action next => exact Or.inl ⟨_, .disk action next _, .changed w action⟩
  | announce outcome => exact Or.inl ⟨_, .announce outcome u, .announced w outcome⟩
  | mishap action next _ fault h =>
    exact Or.inl ⟨_, .disk action next _, .struck w action fault h⟩
  | interrupt => exact Or.inr ⟨rfl, rfl⟩

/-- **Every run of a task has a trace**, which the world follows. -/
theorem Steps.trace {formatter : Formatter} {s s' : Task α × World}
    (h : Steps formatter s s') :
    ∃ es, Trace s.1 es s'.1 ∧ World.Follows formatter s.2 es s'.2 := by
  induction h with
  | refl s => exact ⟨[], .refl _, .refl _⟩
  | @head s t u first rest ih =>
    obtain ⟨es, htrace, hfollows⟩ := ih
    rcases first.cases with ⟨e, htakes, hgives⟩ | ⟨ht, hw⟩
    · exact ⟨e :: es, .cons htakes htrace, .gives hgives hfollows⟩
    · rw [ht] at htrace
      rw [hw] at hfollows
      exact ⟨es, htrace, .interrupt hfollows⟩

/-- A task carried out alone takes steps up to its end. -/
theorem steps_run (formatter : Formatter) (t : Task α) (w : World) :
    Steps formatter (t, w) (.done (t.run formatter w).1, (t.run formatter w).2) := by
  induction t generalizing w with
  | done a => exact .refl _
  | ask call next ih => exact .head (.ask call next w) (ih _ _)
  | poll next ih => exact .head (.poll next w) (ih _ _)
  | disk action next ih => exact .head (.disk action next w) (ih _ _)
  | announce outcome next ih => exact .head (.announce outcome next w) (ih _)

namespace Trace

theorem trans {t s u : Task α} {es fs : List Event} (h : Trace t es s) (k : Trace s fs u) :
    Trace t (es ++ fs) u := by
  induction h with
  | refl => exact k
  | cons first rest ih => exact .cons first (ih k)

theorem snoc {t s u : Task α} {es : List Event} {e : Event} (h : Trace t es s)
    (k : Takes s e u) : Trace t (es ++ [e]) u :=
  h.trans (.cons k (.refl u))

/-! ### Taking traces apart -/

theorem of_done {a : α} {es : List Event} {u : Task α} (h : Trace (.done a) es u) :
    es = [] ∧ u = .done a := by
  cases h with
  | refl => exact ⟨rfl, rfl⟩
  | cons first rest => cases first

theorem of_ask {call : Call} {next : Formatted → Task α} {es : List Event} {a : α}
    (h : Trace (.ask call next) es (.done a)) :
    ∃ answer fs, es = .answered call answer :: fs ∧ Trace (next answer) fs (.done a) := by
  cases h with
  | cons first rest =>
    cases first
    exact ⟨_, _, rfl, rest⟩

theorem of_poll {next : Bool → Task α} {es : List Event} {a : α}
    (h : Trace (.poll next) es (.done a)) :
    ∃ cancelled fs, es = .polled cancelled :: fs ∧ Trace (next cancelled) fs (.done a) := by
  cases h with
  | cons first rest =>
    cases first
    exact ⟨_, _, rfl, rest⟩

theorem of_disk {action : DiskAction} {next : Except IoFault action.Answer → Task α}
    {es : List Event} {a : α} (h : Trace (.disk action next) es (.done a)) :
    ∃ answer fs, es = .changed action answer :: fs ∧ Trace (next answer) fs (.done a) := by
  cases h with
  | cons first rest =>
    cases first
    exact ⟨_, _, rfl, rest⟩

theorem of_announce {outcome : Outcome} {next : Task α} {es : List Event} {a : α}
    (h : Trace (.announce outcome next) es (.done a)) :
    ∃ fs, es = .announced outcome :: fs ∧ Trace next fs (.done a) := by
  cases h with
  | cons first rest =>
    cases first
    exact ⟨_, rfl, rest⟩

/-- A task that is followed by another one goes on as it would alone. -/
theorem bind {t s : Task α} {es : List Event} (h : Trace t es s) (f : α → Task β) :
    Trace (t.bind f) es (s.bind f) := by
  induction h with
  | refl => exact .refl _
  | cons first rest ih =>
    refine .cons ?_ ih
    cases first with
    | ask call next answer => exact .ask call (fun answer => (next answer).bind f) answer
    | poll next cancelled => exact .poll (fun cancelled => (next cancelled).bind f) cancelled
    | disk action next answer => exact .disk action (fun answer => (next answer).bind f) answer
    | announce outcome => exact .announce outcome _

/-- An event of two tasks is the first one's, unless that one has ended. -/
theorem of_takes_bind {t : Task α} {f : α → Task β} {e : Event} {s : Task β}
    (h : Takes (t.bind f) e s) :
    (∃ a, t = .done a ∧ Takes (f a) e s) ∨ ∃ t', Takes t e t' ∧ s = t'.bind f := by
  cases t with
  | done a => exact Or.inl ⟨a, rfl, h⟩
  | ask call next =>
    cases h with
    | ask _ _ answer => exact Or.inr ⟨next answer, .ask call next answer, rfl⟩
  | poll next =>
    cases h with
    | poll _ cancelled => exact Or.inr ⟨next cancelled, .poll next cancelled, rfl⟩
  | disk action next =>
    cases h with
    | disk _ _ answer => exact Or.inr ⟨next answer, .disk action next answer, rfl⟩
  | announce outcome next =>
    cases h
    exact Or.inr ⟨next, .announce outcome next, rfl⟩

/-- **A trace of two tasks, cut in two**: either the first one is still under way, and so are both,
or it has ended and the rest of the trace is the second one's. -/
theorem bind_cut {t : Task α} {f : α → Task β} {es : List Event} {u : Task β}
    (h : Trace (t.bind f) es u) :
    (∃ s, Trace t es s ∧ u = s.bind f ∧ ∀ b, u ≠ .done b) ∨
      ∃ fs gs a, es = fs ++ gs ∧ Trace t fs (.done a) ∧ Trace (f a) gs u := by
  generalize hboth : t.bind f = both at h
  -- by induction on the trace: its first event is the first task's, or that one has ended
  induction h generalizing t with
  | refl both =>
    cases t with
    | done a => exact Or.inr ⟨[], [], a, rfl, .refl _, hboth ▸ .refl _⟩
    | _ => exact Or.inl ⟨_, .refl _, hboth.symm, hboth ▸ nofun⟩
  | @cons both between u e es first rest ih =>
    subst hboth
    rcases of_takes_bind first with ⟨a, rfl, hfirst⟩ | ⟨t', htakes, rfl⟩
    · exact Or.inr ⟨[], e :: es, a, rfl, .refl _, .cons hfirst rest⟩
    · rcases ih rfl with ⟨s, hs, rfl, hu⟩ | ⟨fs, gs, a, rfl, hfirst, hsecond⟩
      · exact Or.inl ⟨s, .cons htakes hs, rfl, hu⟩
      · exact Or.inr ⟨e :: fs, gs, a, rfl, .cons htakes hfirst, hsecond⟩

/-- A trace of two tasks that have ended is a trace of the first and then one of the second. -/
theorem bind_ended {t : Task α} {f : α → Task β} {es : List Event} {b : β}
    (h : Trace (t.bind f) es (.done b)) :
    ∃ fs gs a, es = fs ++ gs ∧ Trace t fs (.done a) ∧ Trace (f a) gs (.done b) := by
  rcases bind_cut h with ⟨s, hs, -, hu⟩ | hcut
  · exact absurd rfl (hu b)
  · exact hcut

end Trace
end Task
end NotebookTidy
