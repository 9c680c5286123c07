import NotebookTidy.Proofs.CanonicalPaths

/-!
# Temporary files beside a file

A file at the end of a straight path is replaced by way of a temporary file in its own directory.
Whether one can be made there depends on that directory alone, so the answer is the same as long as
directories stay as they are (`Straight.creation_eq`).  Where one could be made, and it is still
there, everything that is done with it succeeds.
-/

namespace NotebookTidy

/-- The length of a text in octets adds up. -/
theorem Utf8.encode_append (a b : Text) : encode (a ++ b) = encode a ++ encode b :=
  List.flatMap_append

namespace FileSystem

/-! ## The directory of a path -/

theorem intercalate_names (first : Text) (names : List Text) :
    Text.intercalate ['/'] (first :: names) = first ++ names.flatMap fun name => '/' :: name := by
  induction names generalizing first with
  | nil => rw [List.flatMap_nil, List.append_nil, Text.intercalate]
  | cons name names ih =>
    rw [Text.intercalate, ih, List.flatMap_cons, List.append_assoc]
    rfl

theorem isIdle_of_isName {name : Text} (h : IsName name) : Path.isIdle name = false := by
  simp [Path.isIdle, h.1, h.2.1]

/-- **The directory of a path that spells a location** is spelled by the rest of it. -/
theorem Spells.directory_eq {path : Text} {directory : Location} {name : Text}
    (h : Spells path directory name) : Path.directory path = Location.path directory := by
  have hslash : ∀ n ∈ directory ++ [name], '/' ∉ n := fun n hn => (h.named n hn).2.2.2.1
  have hpieces : (Text.splitAt '/' path).reverse.dropWhile Path.isIdle =
      name :: (directory.reverse ++ [[]]) := by
    rw [h.path_cons, Text.splitAt_names hslash List.not_mem_nil, List.reverse_cons,
      List.reverse_append]
    simp [isIdle_of_isName h.isName]
  rw [Path.directory, hpieces, h.isAbsolute, List.drop_one, List.tail_cons]
  rcases List.eq_nil_or_concat' directory with rfl | ⟨above, last, rfl⟩
  · rfl
  · have hlast : Path.isIdle last = false :=
      isIdle_of_isName (h.named last (by simp))
    have habove : ((above ++ [last]).reverse ++ [[]]).dropWhile Path.isIdle =
        (above ++ [last]).reverse ++ [[]] := by
      simp [hlast]
    rw [habove, List.reverse_append, List.reverse_reverse, if_neg (by simp)]
    change Text.intercalate ['/'] ([] :: (above ++ [last])) = _
    rw [intercalate_names, Location.path, if_neg (by simp), List.nil_append]

theorem accept_eq_ok_iff {path : Text} :
    accept path = .ok () ↔
      '\x00' ∉ path ∧ path ≠ [] ∧ (Utf8.encode path).length ≤ pathLimit := by
  rw [accept]
  split_ifs <;> simp_all

/-- What is put in front of a path that is accepted, and is not empty, is accepted. -/
theorem accept_of_prefix {path front : Text} (h : accept path = .ok ()) (hfront : front <+: path)
    (hne : front ≠ []) : accept front = .ok () := by
  obtain ⟨rest, rfl⟩ := hfront
  obtain ⟨hnul, -, hlength⟩ := accept_eq_ok_iff.mp h
  rw [Utf8.encode_append, List.length_append] at hlength
  exact accept_eq_ok_iff.mpr ⟨fun hmem => hnul (List.mem_append_left _ hmem), hne, by omega⟩

theorem Passable.of_append {fs : FileSystem} {location : Location} {names rest : List Text}
    (h : fs.Passable location (names ++ rest)) : fs.Passable location names := by
  induction names generalizing location with
  | nil => trivial
  | cons name names ih => exact ⟨h.1, ih h.2⟩

namespace Straight
variable {fs : FileSystem} {path : Text} {directory : Location} {name : Text}

/-- The directory that a straight path names something in. -/
theorem node?_directory (h : fs.Straight path directory name) :
    ∃ bits, fs.node? directory = some (.directory bits) := by
  obtain ⟨bits, hnode, -⟩ := h.passable.node?
  exact ⟨bits, hnode⟩

/-- **The path of the directory leads to it.** -/
theorem resolve_directory (h : fs.Straight path directory name) :
    fs.resolve (Path.directory path) = .ok directory := by
  obtain ⟨bits, hnode⟩ := h.node?_directory
  rw [h.directory_eq]
  rcases List.eq_nil_or_concat' directory with rfl | ⟨above, last, rfl⟩
  · rfl
  · have hpath : path = Location.path (above ++ [last]) ++ '/' :: name := by
      rw [h.path_eq, Location.path, Location.path, if_neg (by simp), if_neg (by simp),
        List.flatMap_append, List.flatMap_singleton]
    have hstraight : fs.Straight (Location.path (above ++ [last])) above last :=
      { path_eq := rfl
        named := fun n hn => h.named n (List.mem_append_left _ hn)
        accepted := accept_of_prefix h.accepted ⟨_, hpath.symm⟩ (by simp [Location.path])
        passable := h.passable.of_append }
    exact hstraight.resolve_node hnode fun target hlink => by cases hlink

/-- **Whether a temporary file can be made beside a file**, and in which directory. -/
theorem creation_eq (h : fs.Straight path directory name) :
    (fs.perform (.createTemporary (Path.directory path))).map (fun made => made.2.dropLast) =
      (accept (Path.join (Path.directory path) temporaryName)).bind fun _ =>
        (fs.permitChange directory).map fun _ => directory := by
  obtain ⟨bits, hnode⟩ := h.node?_directory
  rw [perform, h.resolve_directory]
  rcases accept (Path.join (Path.directory path) temporaryName) with fault | ⟨⟩
  · rfl
  · simp only [bind, Except.bind, hnode]
    rcases fs.permitChange directory with fault | ⟨⟩
    · rfl
    · exact congrArg Except.ok (List.dropLast_concat)

theorem permitChange_congr {fs' : FileSystem} {directory : Location}
    (h : fs'.node? directory = fs.node? directory) :
    fs'.permitChange directory = fs.permitChange directory := by
  have hallows (right : Right) : fs'.allows directory right = fs.allows directory right := by
    rw [allows, h, allows]
  rw [permitChange, hallows, hallows, permitChange]

/-- The answer stays the same as long as directories stay. -/
theorem creation_mono {fs' : FileSystem} (h : fs.Straight path directory name)
    (hkeeps : fs.KeepsDirectories fs') :
    (fs'.perform (.createTemporary (Path.directory path))).map (fun made => made.2.dropLast) =
      (fs.perform (.createTemporary (Path.directory path))).map fun made => made.2.dropLast := by
  obtain ⟨bits, hnode⟩ := h.node?_directory
  rw [h.creation_eq, (h.mono hkeeps).creation_eq,
    permitChange_congr ((hkeeps directory bits hnode).trans hnode.symm)]

/-- A temporary file is made in the directory of the file, and only if names can be changed
there. -/
theorem of_creation (h : fs.Straight path directory name) {location : Location}
    (hmade : (fs.perform (.createTemporary (Path.directory path))).map
      (fun made => made.2.dropLast) = .ok location) :
    location = directory ∧ fs.permitChange directory = .ok () := by
  rw [h.creation_eq] at hmade
  rcases haccept : accept (Path.join (Path.directory path) temporaryName) with fault | ⟨⟩
  · rw [haccept] at hmade
    cases hmade
  · rw [haccept] at hmade
    rcases hpermit : fs.permitChange directory with fault | ⟨⟩
    · rw [hpermit] at hmade
      cases hmade
    · rw [hpermit] at hmade
      cases hmade
      exact ⟨rfl, rfl⟩

/-- **A file beside the one that a path names can take its place.** -/
theorem rename_eq_ok (h : fs.Straight path directory name) {temporary : Location} {node : Node}
    (hbeside : temporary.dropLast = directory) (hpermit : fs.permitChange directory = .ok ())
    (hnode : fs.node? temporary = some node)
    (hplace : ∀ bits, fs.node? (directory ++ [name]) ≠ some (.directory bits)) :
    ∃ done, fs.perform (.rename temporary path) = .ok done := by
  rw [perform, h.locate]
  simp only [bind, Except.bind, hnode, hbeside, hpermit, List.dropLast_concat]
  exact ⟨_, rfl⟩

end Straight
end FileSystem
end NotebookTidy
