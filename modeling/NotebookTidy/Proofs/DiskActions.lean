import NotebookTidy.FileSystem.Action

/-!
# What actions do to a file system

Only what stands at a location matters to what comes later, so each action is described by the
nodes that it leaves: which location it touches, what stands there afterwards, and that everything
else stands where it stood.  A new temporary file is put where nothing is, a file is written or
gets other bits in its place, and a renamed one moves to what the path names.
-/

namespace NotebookTidy
namespace FileSystem

/-- A computation that succeeds has succeeded in its first part. -/
theorem ok_of_bind {ε α β : Type} {x : Except ε α} {f : α → Except ε β} {b : β}
    (h : (x >>= f) = .ok b) : ∃ a, x = .ok a ∧ f a = .ok b := by
  cases x with
  | error fault => cases h
  | ok a => exact ⟨a, rfl, h⟩

/-! ## Nodes after a change -/

theorem nodeIn?_putIn (location other : Location) (node : Node)
    (entries : List (Location × Node)) :
    nodeIn? other (putIn location node entries) =
      if other = location then some node else nodeIn? other entries := by
  induction entries with
  | nil => simp [putIn, nodeIn?, eq_comm]
  | cons entry rest ih =>
    obtain ⟨l, n⟩ := entry
    rw [putIn]
    by_cases hl : l = location
    · subst hl
      by_cases ho : other = l
      · simp [nodeIn?, ho]
      · have ho' : ¬ l = other := fun h => ho h.symm
        simp [nodeIn?, ho, ho']
    · rw [if_neg hl, nodeIn?, ih, nodeIn?]
      by_cases ho : l = other
      · subst ho
        simp [hl]
      · simp [ho]

theorem node?_put {location : Location} (h : location ≠ []) (fs : FileSystem) (node : Node)
    (other : Location) :
    (fs.put location node).node? other =
      if other = location then some node else fs.node? other := by
  by_cases ho : other = []
  · subst ho
    have hne : ¬ [] = location := fun he => h he.symm
    simp [node?, hne]
  · simp only [node?, if_neg ho]
    exact nodeIn?_putIn location other node fs.entries

theorem nodeIn?_filter (location other : Location) (entries : List (Location × Node)) :
    nodeIn? other (entries.filter fun entry => entry.1 ≠ location) =
      if other = location then none else nodeIn? other entries := by
  induction entries with
  | nil => simp [nodeIn?]
  | cons entry rest ih =>
    obtain ⟨l, n⟩ := entry
    by_cases hl : l = location
    · rw [List.filter_cons_of_neg (by simpa using hl), ih]
      by_cases ho : other = location
      · simp [ho]
      · have ho' : ¬ l = other := fun h => ho (h ▸ hl)
        simp [nodeIn?, ho, ho']
    · rw [List.filter_cons_of_pos (by simpa using hl), nodeIn?, ih, nodeIn?]
      by_cases ho : l = other
      · subst ho
        simp [hl]
      · simp [ho]

theorem node?_erase {location : Location} (h : location ≠ []) (fs : FileSystem)
    (other : Location) :
    (fs.erase location).node? other = if other = location then none else fs.node? other := by
  by_cases ho : other = []
  · subst ho
    have hne : ¬ [] = location := fun he => h he.symm
    simp [node?, hne]
  · simp only [node?, if_neg ho]
    exact nodeIn?_filter location other fs.entries

/-! ## Names of temporary files -/

theorem length_le_longestName {fs : FileSystem} {entry : Location × Node}
    (h : entry ∈ fs.entries) : (entry.1.getLastD []).length ≤ fs.longestName := by
  have hfold : ∀ entries : List (Location × Node), entry ∈ entries →
      (entry.1.getLastD []).length ≤
        (entries.map fun e => (e.1.getLastD []).length).foldr max 0 := by
    intro entries hmem
    induction entries with
    | nil => cases hmem
    | cons first rest ih =>
      simp only [List.map_cons, List.foldr_cons]
      rcases List.mem_cons.mp hmem with rfl | hmem
      · exact Nat.le_max_left _ _
      · exact Nat.le_trans (ih hmem) (Nat.le_max_right _ _)
  exact hfold fs.entries h

theorem nodeIn?_eq_none {location : Location} {entries : List (Location × Node)}
    (h : ∀ entry ∈ entries, entry.1 ≠ location) : nodeIn? location entries = none := by
  induction entries with
  | nil => rfl
  | cons entry rest ih =>
    obtain ⟨l, n⟩ := entry
    rw [nodeIn?, if_neg (h _ List.mem_cons_self)]
    exact ih fun other hother => h other (List.mem_cons_of_mem _ hother)

/-- **Nothing has the name of a new temporary file**, in whatever directory. -/
theorem node?_freshName (fs : FileSystem) (directory : Location) :
    fs.node? (directory ++ [fs.freshName]) = none := by
  rw [node?, if_neg (by simp)]
  refine nodeIn?_eq_none fun entry hentry heq => ?_
  have hle := length_le_longestName hentry
  rw [heq, List.getLastD_concat] at hle
  simp [freshName] at hle
  omega

/-! ## Actions -/

variable {fs fs' : FileSystem} {location at_location : Location} {path : Text} {bits : Nat}

/-- A temporary file is made where nothing is. -/
theorem of_createTemporary (h : fs.perform (.createTemporary path) = .ok (fs', location)) :
    location ≠ [] ∧ fs.node? location = none ∧
      fs' = fs.put location (.file [] Permission.ofTemporary) := by
  obtain ⟨-, -, h⟩ := ok_of_bind h
  obtain ⟨directory, -, h⟩ := ok_of_bind h
  split at h
  · obtain ⟨-, -, h⟩ := ok_of_bind h
    simp only [Except.ok.injEq, Prod.mk.injEq] at h
    obtain ⟨rfl, rfl⟩ := h
    exact ⟨by simp, fs.node?_freshName directory, rfl⟩
  · cases h

theorem of_write {content : Octets}
    (h : fs.perform (.write location content) = .ok (fs', at_location)) :
    ∃ old bits, fs.node? location = some (.file old bits) ∧
      fs' = fs.put location (.file content bits) := by
  rw [perform] at h
  split at h
  · next old bits hnode =>
    simp only [Except.ok.injEq, Prod.mk.injEq] at h
    exact ⟨old, bits, hnode, h.1.symm⟩
  · cases h
  · cases h

/-- A look-up changes nothing, and answers what the path leads to. -/
theorem of_lookUp (h : fs.perform (.lookUp path) = .ok (fs', bits)) :
    fs.bits path = .ok bits ∧ fs' = fs := by
  rw [perform] at h
  rcases hbits : fs.bits path with fault | found
  · rw [hbits] at h
    cases h
  · rw [hbits] at h
    cases h
    exact ⟨rfl, rfl⟩

/-- A look-up fails where the path leads to nothing that has bits. -/
theorem of_lookUp_error {fault : IoFault} (h : fs.perform (.lookUp path) = .error fault) :
    fs.bits path = .error fault := by
  rw [perform] at h
  rcases hbits : fs.bits path with fault' | found
  · rw [hbits] at h
    cases h
    rfl
  · rw [hbits] at h
    cases h

theorem of_setBits (h : fs.perform (.setBits location bits) = .ok (fs', at_location)) :
    fs.node? location ≠ none ∧ fs' = fs.setBits location bits := by
  rw [perform] at h
  split at h
  · next node hnode =>
    simp only [Except.ok.injEq, Prod.mk.injEq] at h
    exact ⟨hnode ▸ Option.some_ne_none node, h.1.symm⟩
  · cases h

/-- A file gets other bits in its place. -/
theorem setBits_file {content : Octets} {old : Nat}
    (h : fs.node? location = some (.file content old)) :
    fs.setBits location bits = fs.put location (.file content bits) := by
  rw [setBits, h]

theorem of_rename (h : fs.perform (.rename location path) = .ok (fs', at_location)) :
    ∃ target node, fs.locate path = .ok target ∧ fs.node? location = some node ∧
      fs' = (fs.erase location).put target node := by
  obtain ⟨target, htarget, h⟩ := ok_of_bind h
  split at h
  · cases h
  · next node hnode =>
    obtain ⟨-, -, h⟩ := ok_of_bind h
    obtain ⟨-, -, h⟩ := ok_of_bind h
    split at h
    · cases h
    · simp only [Except.ok.injEq, Prod.mk.injEq] at h
      exact ⟨target, node, htarget, hnode, h.1.symm⟩

end FileSystem
end NotebookTidy
