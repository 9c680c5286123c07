import Mathlib.Data.List.Basic
import NotebookTidy.Proofs.Walks

/-!
# Where walks lead after a replacement

A replacement changes one entry: the file itself, or a link that a path names, which then is a link
no more.  Either entry **stands for** the file (`StandsFor`), and whatever comes by it ends at the
file.  So a path that leads to another file never came by it, and leads there still
(`Swapped.resolve_other`), while the path of the file leads to the entry from then on
(`Swapped.resolve_self`).
-/

namespace NotebookTidy
namespace FileSystem

variable {fs fs' : FileSystem} {path : Text} {directory location place last : Location}
  {name : Text} {steps rest : List Text} {links left : Nat}

/-- There is a file at the location. -/
def IsFile (fs : FileSystem) (location : Location) : Prop :=
  ∃ content bits, fs.node? location = some (.file content bits)

theorem IsFile.not_directory (h : fs.IsFile location) (bits : Nat) :
    fs.node? location ≠ some (.directory bits) := by
  obtain ⟨content, bits', hnode⟩ := h
  rw [hnode]
  exact nofun

/-- **An entry in a directory stands for a location**: a walk that comes by it ends there. -/
def StandsFor (fs : FileSystem) (directory : Location) (name : Text) (location : Location) : Prop :=
  location = directory ++ [name] ∨
    ∃ target links left, fs.node? (directory ++ [name]) = some (.link target) ∧
      fs.Walks (linkOrigin directory target) (Path.steps target) links location left

/-- **A replacement**, seen from the file that is replaced: the entry that stands for it is a file,
and everything else is as it was. -/
structure Swapped (fs fs' : FileSystem) (directory : Location) (name : Text) (location : Location) :
    Prop where
  /-- The directory that a process works in is the same. -/
  here_eq : fs'.here = fs.here
  /-- The entry stands for the file. -/
  stands : fs.StandsFor directory name location
  /-- It is a file afterwards. -/
  file : fs'.IsFile (directory ++ [name])
  /-- Nothing else is touched. -/
  frame : ∀ other, other ≠ directory ++ [name] → fs'.node? other = fs.node? other

theorem StandsFor.not_directory (h : fs.StandsFor directory name place) (hfile : fs.IsFile place)
    (bits : Nat) : fs.node? (directory ++ [name]) ≠ some (.directory bits) := by
  rcases h with rfl | ⟨target, _, _, hlink, -⟩
  · exact hfile.not_directory bits
  · rw [hlink]
    exact nofun

/-- What stands for a file and is a file is that file. -/
theorem StandsFor.eq_of_isFile (h : fs.StandsFor directory name place)
    (hfile : fs.IsFile (directory ++ [name])) : place = directory ++ [name] := by
  rcases h with heq | ⟨target, _, _, hlink, -⟩
  · exact heq
  · obtain ⟨content, bits, hnode⟩ := hfile
    rw [hlink] at hnode
    cases hnode

/-- **What comes by an entry that stands for a file** ends there. -/
theorem StandsFor.last_eq {target : Text} (h : fs.StandsFor directory name place)
    (hfile : fs.IsFile place) (hlink : fs.node? (directory ++ [name]) = some (.link target))
    (hwalks : fs.Walks (linkOrigin directory target) (Path.steps target ++ rest) links last left) :
    last = place := by
  rcases h with rfl | ⟨target', links', left', hlink', hleads⟩
  · obtain ⟨content, bits, hnode⟩ := hfile
    rw [hlink] at hnode
    cases hnode
  · rw [hlink] at hlink'
    cases hlink'
    obtain ⟨between, spared, hfirst, hrest⟩ := hwalks.cut
    cases hfirst.unique hleads
    exact (hrest.of_not_directory hfile.not_directory).2

namespace Swapped

theorem passes (h : fs.Swapped fs' directory name place) (hfile : fs.IsFile place)
    (hpasses : fs.Passes location) : fs'.Passes location := by
  obtain ⟨bits, hnode, hsearch⟩ := hpasses
  have hother : location ≠ directory ++ [name] := by
    rintro rfl
    exact h.stands.not_directory hfile bits hnode
  exact ⟨bits, (h.frame _ hother).trans hnode, hsearch⟩

/-- **A walk after a replacement** ends where it ended before, unless it ended at the file that was
replaced. -/
theorem walks (h : fs.Swapped fs' directory name place) (hfile : fs.IsFile place)
    (hwalks : fs.Walks location steps links last left) :
    last = directory ++ [name] ∨ last = place ∨ fs'.Walks location steps links last left := by
  induction hwalks with
  | arrived location links => exact .inr (.inr (.arrived location links))
  | @hop location next last name' rest links left first onward ih =>
    have hsame (hfirst : fs'.Hop location name' next) :
        last = directory ++ [name] ∨ last = place ∨
          fs'.Walks location (name' :: rest) links last left := by
      rcases ih with heq | heq | hrest
      · exact .inl heq
      · exact .inr (.inl heq)
      · exact .inr (.inr (.hop hfirst hrest))
    cases first with
    | rest hdirectory =>
      obtain ⟨bits, hnode⟩ := hdirectory
      have hother : location ≠ directory ++ [name] := by
        rintro rfl
        exact h.stands.not_directory hfile bits hnode
      exact hsame (.rest ⟨bits, (h.frame _ hother).trans hnode⟩)
    | stay passes => exact hsame (.stay (h.passes hfile passes))
    | rise passes => exact hsame (.rise (h.passes hfile passes))
    | enter passes entry found no_link =>
      by_cases hother : location ++ [name'] = directory ++ [name]
      · -- nothing leads on from the entry
        rw [hother] at onward
        exact .inl (onward.of_not_directory (h.stands.not_directory hfile)).2
      · exact hsame (.enter (h.passes hfile passes) entry ((h.frame _ hother).trans found) no_link)
  | @follow location last name' target rest links left passes entry found leads onward ih =>
    by_cases hother : location ++ [name'] = directory ++ [name]
    · obtain ⟨rfl, hname⟩ := List.append_inj' hother rfl
      cases hname
      exact .inr (.inl (h.stands.last_eq hfile found onward))
    · rcases ih with heq | heq | hrest
      · exact .inl heq
      · exact .inr (.inl heq)
      · exact .inr (.inr
          (.follow (h.passes hfile passes) entry ((h.frame _ hother).trans found) leads hrest))

end Swapped

/-! ## What paths name -/

/-- **A path names an entry in a directory**, whatever that is. -/
structure Names (fs : FileSystem) (path : Text) (directory : Location) (name : Text) : Prop where
  /-- It is a path at all. -/
  accepted : accept path = .ok ()
  /-- The entry's name is its last step. -/
  steps_eq : Path.steps path = (Path.names path).dropLast ++ [name]
  /-- The other steps lead to the directory. -/
  leads : ∃ left, fs.Walks (fs.origin path) (Path.names path).dropLast linkLimit directory left
  /-- The directory lets walks pass. -/
  passes : fs.Passes directory
  /-- The name is one that an entry can have. -/
  entry : IsEntry name

theorem of_lastName? (h : Path.lastName? path = some name) :
    (Path.names path).getLast? = some name ∧ name ≠ Path.here ∧ name ≠ Path.above := by
  rw [Path.lastName?] at h
  split at h
  · next last hlast =>
    split at h
    · cases h
    · next hstep =>
      cases h
      exact ⟨hlast, not_or.mp hstep⟩
  · cases h

/-- **What is replaced by way of a path** is an entry that the path names. -/
theorem names_of_locate {place : Location} (h : fs.locate path = .ok place) :
    ∃ directory name, place = directory ++ [name] ∧ fs.Names path directory name := by
  obtain ⟨⟨directory, name?⟩, hparent, h⟩ := ok_of_bind h
  obtain ⟨⟨⟩, haccept, hparent⟩ := ok_of_bind hparent
  obtain ⟨⟨directory', left⟩, hwalk, hlast⟩ := ok_of_bind hparent
  injection hlast with hlast
  injection hlast with hdirectory hlast
  subst hdirectory
  rcases name? with - | name
  · cases h
  · change (if nameLimit < (Utf8.encode name).length then _ else if Path.endsInSlash path then _
      else _) = _ at h
    obtain ⟨hname, hhere, habove⟩ := of_lastName? hlast
    split at h
    · cases h
    · next hlimit =>
      split at h
      · cases h
      · next hslash =>
        injection h with h
        subst h
        have hempty : name ≠ [] := by
          have hmem := List.mem_of_getLast? hname
          simpa using (List.mem_filter.mp hmem).2
        have hsteps : Path.steps path = (Path.names path).dropLast ++ [name] := by
          rw [Path.steps, if_neg hslash, List.append_nil]
          exact (List.dropLast_append_getLast? name hname).symm
        obtain ⟨between, spared, hfirst, hstay⟩ := (walk_eq_ok_iff.mp hwalk).cut
        obtain ⟨hpasses, rfl⟩ := hstay.of_here
        exact ⟨_, name, rfl, haccept, hsteps, ⟨spared, hfirst⟩, hpasses, hempty, hhere, habove,
          Nat.not_lt.mp hlimit⟩

/-- A walk by the name of an entry ends where the entry stands for. -/
theorem Walks.of_entry (h : fs.Walks location [name] links last left) (hentry : IsEntry name) :
    fs.Passes location ∧ fs.StandsFor location name last ∧
      fs.node? (location ++ [name]) ≠ none := by
  obtain ⟨hempty, hhere, habove, -⟩ := hentry
  cases h with
  | hop first onward =>
    cases onward
    cases first with
    | rest => exact absurd rfl hempty
    | stay => exact absurd rfl hhere
    | rise => exact absurd rfl habove
    | enter passes entry found =>
      rw [found]
      exact ⟨passes, .inl rfl, Option.some_ne_none _⟩
  | @follow _ _ _ target _ links left passes entry found leads onward =>
    rw [List.append_nil] at onward
    rw [found]
    exact ⟨passes, .inr ⟨target, _, _, found, onward⟩, Option.some_ne_none _⟩

namespace Names

/-- The last step of a path from the directory that it names something in. -/
theorem last_walk (h : fs.Names path directory name) (hresolve : fs.resolve path = .ok place) :
    ∃ links left, fs.Walks directory [name] links place left := by
  obtain ⟨-, left, hwalks⟩ := resolve_eq_ok_iff.mp hresolve
  obtain ⟨spared, hleads⟩ := h.leads
  rw [h.steps_eq] at hwalks
  obtain ⟨between, spared', hfirst, hlast⟩ := hwalks.cut
  cases hfirst.unique hleads
  exact ⟨_, _, hlast⟩

/-- **What a path names stands for what the path leads to.** -/
theorem standsFor (h : fs.Names path directory name) (hresolve : fs.resolve path = .ok place) :
    fs.StandsFor directory name place ∧ fs.node? (directory ++ [name]) ≠ none := by
  obtain ⟨links, left, hlast⟩ := h.last_walk hresolve
  exact (hlast.of_entry h.entry).2

/-- **A path named the same entry** before entries were added. -/
theorem of_keeps (h : fs'.Names path directory name) (hkeeps : fs.Keeps fs')
    (hresolve : fs.resolve path = .ok place) : fs.Names path directory name := by
  obtain ⟨-, left, hwalks⟩ := resolve_eq_ok_iff.mp hresolve
  obtain ⟨spared, hleads⟩ := h.leads
  rw [h.steps_eq] at hwalks
  obtain ⟨between, spared', hfirst, hlast⟩ := hwalks.cut
  rw [origin_congr hkeeps.1] at hleads
  cases (hfirst.mono hkeeps).unique hleads
  exact ⟨h.accepted, h.steps_eq, ⟨spared', hfirst⟩, (hlast.of_entry h.entry).1, h.entry⟩

end Names

/-! ## Paths after a replacement -/

namespace Swapped

/-- **A path to another file leads there still**, and that file is the same. -/
theorem resolve_other (h : fs.Swapped fs' directory name place) (hplace : fs.IsFile place)
    (hresolve : fs.resolve path = .ok location) (hfile : fs.IsFile location)
    (hne : location ≠ place) :
    fs'.resolve path = .ok location ∧ location ≠ directory ++ [name] ∧
      fs'.node? location = fs.node? location := by
  have hother : location ≠ directory ++ [name] := by
    rintro rfl
    exact hne (h.stands.eq_of_isFile hfile).symm
  obtain ⟨haccept, left, hwalks⟩ := resolve_eq_ok_iff.mp hresolve
  rcases h.walks hplace hwalks with heq | heq | hwalks'
  · exact absurd heq hother
  · exact absurd heq hne
  · refine ⟨resolve_eq_ok_iff.mpr ⟨haccept, left, ?_⟩, hother, h.frame _ hother⟩
    rw [origin_congr h.here_eq]
    exact hwalks'

/-- **The path of the file leads to the entry**, which is the file now. -/
theorem resolve_self (h : fs.Swapped fs' directory name place) (hplace : fs.IsFile place)
    (hnames : fs.Names path directory name) :
    fs'.resolve path = .ok (directory ++ [name]) := by
  obtain ⟨spared, hleads⟩ := hnames.leads
  obtain ⟨bits, hdirectory, -⟩ := hnames.passes
  obtain ⟨content, bits', hnode⟩ := h.file
  refine resolve_eq_ok_iff.mpr ⟨hnames.accepted, spared, ?_⟩
  rw [hnames.steps_eq, origin_congr h.here_eq]
  have hlast : fs'.Walks directory [name] spared (directory ++ [name]) spared :=
    .hop (.enter (h.passes hplace hnames.passes) hnames.entry hnode nofun) (.arrived _ _)
  rcases h.walks hplace hleads with heq | heq | hwalks
  · rw [heq] at hdirectory
    exact absurd hdirectory (h.stands.not_directory hplace bits)
  · rw [heq] at hdirectory
    exact absurd hdirectory (hplace.not_directory bits)
  · exact hwalks.trans hlast

end Swapped
end FileSystem
end NotebookTidy
