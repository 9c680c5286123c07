import Mathlib.Data.List.TakeWhile
import NotebookTidy.Proofs.NamedEntries
import NotebookTidy.Proofs.ResolvedTargets

/-!
# The names of notebooks

Two tests tell a notebook by its name.  A search asks how the name ends; of a path that is given
the extension counts, and the suffix alone is a name without one.  So the tests agree on every name
but that (`Path.isNotebook_iff`).

They are not asked about the same names, though.  A search asks about the name by which it comes to
a file, and a link may have any name: it makes its file a notebook for the search, whatever the
file's own name is (`HasAlias`).  Apart from that, a file below a directory is found in it exactly
if it is accepted by itself (`found_iff_accepted`).
-/

namespace NotebookTidy

namespace Path
variable {path name stem extension : Text}

/-- **The extension of a name** is what comes after its last dot, if something comes before it. -/
theorem splitExtension?_eq_some_iff :
    splitExtension? name = some (stem, extension) ↔
      name = stem ++ '.' :: extension ∧ stem ≠ [] ∧ '.' ∉ extension := by
  rw [splitExtension?]
  constructor
  · intro h
    split at h
    · next dot c before hrest =>
      cases h
      have hdot : dot = '.' := by
        have hfirst := List.head?_dropWhile_not (· ≠ '.') name.reverse
        rw [hrest] at hfirst
        simpa using hfirst
      have hparts := List.takeWhile_append_dropWhile (p := (· ≠ '.')) (l := name.reverse)
      rw [hrest, hdot] at hparts
      have hname := congrArg List.reverse hparts
      rw [List.reverse_reverse, List.reverse_append] at hname
      refine ⟨by simpa using hname.symm, by simp, fun hmem => ?_⟩
      have hother := List.mem_takeWhile_imp (List.mem_reverse.mp hmem)
      simp at hother
    · cases h
  · rintro ⟨rfl, hstem, hextension⟩
    have hother : ∀ c ∈ extension.reverse, decide (c ≠ '.') = true := fun c hc =>
      decide_eq_true fun heq => hextension (heq ▸ List.mem_reverse.mp hc)
    have hreverse : (stem ++ '.' :: extension).reverse =
        extension.reverse ++ '.' :: stem.reverse := by simp
    obtain ⟨c, before, hbefore⟩ := List.exists_cons_of_ne_nil (List.reverse_ne_nil_iff.mpr hstem)
    have hend : stem = (c :: before).reverse := by rw [← hbefore, List.reverse_reverse]
    rw [hreverse, List.dropWhile_append_of_pos hother, List.takeWhile_append_of_pos hother, hbefore]
    simp [hend]

theorem fileName?_of_getLast? (h : (names path).getLast? = some name) (hhere : name ≠ here)
    (habove : name ≠ above) : fileName? path = some name := by
  obtain ⟨front, hfront⟩ := List.getLast?_eq_some_iff.mp h
  have hparts : (parts path).getLast? = some name := by
    rw [parts, hfront, List.filter_append, List.filter_cons_of_pos (by simpa using hhere),
      List.filter_nil, List.getLast?_concat]
  simp only [fileName?, hparts, habove, if_false]

/-- **Which paths name notebooks**: those whose last name ends as notebooks' names do, and is more
than this end. -/
theorem isNotebook_iff (h : fileName? path = some name) :
    isNotebook path = true ↔
      Discovery.notebookSuffix <:+ name ∧ name ≠ Discovery.notebookSuffix := by
  have hsuffix : Discovery.notebookSuffix = '.' :: notebookExtension := rfl
  rw [isNotebook, h, Option.bind_some, hsuffix]
  constructor
  · intro hsplit
    rcases hparts : splitExtension? name with - | ⟨stem, extension⟩
    · rw [hparts] at hsplit
      cases hsplit
    · rw [hparts] at hsplit
      obtain ⟨rfl, hstem, -⟩ := splitExtension?_eq_some_iff.mp hparts
      rw [of_decide_eq_true hsplit]
      exact ⟨List.suffix_append _ _, fun heq => hstem (List.append_left_eq_self.mp heq)⟩
  · rintro ⟨⟨stem, rfl⟩, hmore⟩
    have hstem : stem ≠ [] := fun hnil => hmore (by rw [hnil, List.nil_append])
    rw [splitExtension?_eq_some_iff.mpr ⟨rfl, hstem, by decide⟩]
    exact decide_eq_true rfl

end Path

theorem FileSystem.Names.fileName? {fs : FileSystem} {path name : Text} {directory : Location}
    (h : fs.Names path directory name) : Path.fileName? path = some name :=
  Path.fileName?_of_getLast? h.getLast?_names h.entry.2.1 h.entry.2.2.1

namespace Discovery

variable {fs : FileSystem} {target path name : Text} {trail start : Trail}
  {directory place : Location}

/-! ## Files that are given -/

/-- **What comes of one file** that a path names. -/
theorem discover_file (hnames : fs.Names path directory name)
    (hfile : fs.IsFile (directory ++ [name])) :
    discover fs [path] =
      if notebookSuffix <:+ name ∧ name ≠ notebookSuffix then
        .ok [Location.path (directory ++ [name])]
      else .error (.invalidExtension path) := by
  obtain ⟨content, bits, hnode⟩ := hfile
  have hresolve := hnames.resolve hnode nofun
  have hexists : ∀ target ∈ [path], fs.pathExists target = true := by
    intro target htarget
    rw [List.mem_singleton.mp htarget]
    exact (FileSystem.pathExists_iff hresolve).mpr ⟨_, hnode⟩
  have hdirectory : fs.isDirectory path = false := by
    rw [Bool.eq_false_iff, Ne, FileSystem.isDirectory_iff hresolve, hnode]
    exact nofun
  have hexpand : expand fs path =
      if notebookSuffix <:+ name ∧ name ≠ notebookSuffix then .ok [directory ++ [name]]
      else .error (.invalidExtension path) := by
    simp only [expand, hresolve, hdirectory, Bool.false_eq_true, if_false,
      Path.isNotebook_iff hnames.fileName?]
  rw [discover_of_exists hexists, expandAll, hexpand]
  split <;> rfl

/-! ## Files that are below a directory -/

/-- **A file has an alias below a directory**: a link that is named as a notebook and leads to it. -/
def HasAlias (fs : FileSystem) (directory place : Location) : Prop :=
  ∃ inner name link, IsInside fs directory inner ∧
    fs.node? (inner ++ [name]) = some (.link link) ∧ notebookSuffix <:+ name ∧
      fs.EntryLeads inner name place

/-- A search that is not blocked enters the directories in a directory. -/
theorem next_of_not_blocked {bits : Nat} (h : isBlocked fs trail = false)
    (hchild : (name, .directory bits) ∈ fs.children trail.location) :
    ∃ next, trail.next fs name = .ok next := by
  have hentries := (Bool.or_eq_false_iff.mp h).2
  have hfault := List.any_eq_false.mp hentries _ hchild
  rcases hnext : trail.next fs name with fault | next
  · simp [entryFault?, hnext] at hfault
  · exact ⟨next, rfl⟩

section
variable (hdisk : fs.WellFormed) (hnamed : fs.Named) (h : Explores fs target start)
include hdisk hnamed h

/-- **A directory below another one is inside it**, if a search explores that one. -/
theorem isInside_of_directory {names : List Text}
    (hdirectory : ∃ bits, fs.node? (start.location ++ names) = some (.directory bits)) :
    IsInside fs start.location (start.location ++ names) := by
  induction names using List.reverseRecOn with
  | nil =>
    rw [List.append_nil]
    exact .self
  | append_singleton names name ih =>
    obtain ⟨bits, hnode⟩ := hdirectory
    rw [← List.append_assoc] at hnode ⊢
    have habove := hdisk.directory_above (List.cons_ne_nil name [])
      (by rw [hnode]; exact Option.some_ne_none _)
    have hinside := ih habove
    obtain ⟨trail, hbelow, hlocation, -⟩ := h.exhaustive _ hinside
    -- the search got in, so the directory above lets walks pass
    have hchild : (name, Node.directory bits) ∈ fs.children trail.location := by
      rw [hlocation]
      exact FileSystem.mem_children.mpr (FileSystem.mem_entries (by simp) hnode)
    obtain ⟨next, hnext⟩ := next_of_not_blocked (h.unbarred trail hbelow) hchild
    have hentry := (hnamed.isName hchild).isEntry
    obtain ⟨-, hwalks, -⟩ := next_eq_ok_iff.mp hnext
    have hpasses := (hwalks.of_entry hentry).1
    rw [hlocation] at hpasses
    exact hinside.entry (FileSystem.entryLeads_of_node hpasses hentry hnode nofun) ⟨bits, hnode⟩

/-- **Which files below a directory are its notebooks**: those whose own name ends as a notebook's
does, and those with an alias. -/
theorem hasNotebook_iff (hbelow : start.location <+: directory) (hpasses : fs.Passes directory)
    (hentry : FileSystem.IsEntry name) (hfile : fs.IsFile (directory ++ [name])) :
    HasNotebook fs start.location (directory ++ [name]) ↔
      notebookSuffix <:+ name ∨ HasAlias fs start.location (directory ++ [name]) := by
  constructor
  · rintro ⟨inner, entry, hinside, hsuffix, hleads, -⟩
    obtain ⟨-, hstands, -⟩ := hleads.2.choose_spec.of_entry hleads.1
    rcases hstands with hown | ⟨link, -, -, hlink, -⟩
    · cases (List.append_inj' hown rfl).2
      exact .inl hsuffix
    · exact .inr ⟨inner, entry, link, hinside, hlink, hsuffix, hleads⟩
  · rintro (hsuffix | ⟨inner, entry, link, hinside, -, hsuffix, hleads⟩)
    · obtain ⟨names, rfl⟩ := hbelow
      have hinside := isInside_of_directory hdisk hnamed h hpasses.directory
      obtain ⟨content, bits, hnode⟩ := hfile
      have hleads := FileSystem.entryLeads_of_node hpasses hentry hnode nofun
      exact ⟨_, name, hinside, hsuffix, hleads, content, bits, hnode⟩
    · exact ⟨inner, entry, hinside, hsuffix, hleads, hfile⟩

end

/-- Paths of locations that are there are told apart by the locations. -/
theorem path_mem_map (hnamed : fs.Named) (hfile : fs.IsFile place) {locations : List Location}
    (hlocations : ∀ location ∈ locations, ∀ name ∈ location, FileSystem.IsName name) :
    place.path ∈ locations.map Location.path ↔ place ∈ locations := by
  obtain ⟨content, bits, hnode⟩ := hfile
  constructor
  · intro h
    obtain ⟨location, hlocation, hpath⟩ := List.mem_map.mp h
    have hnames := congrArg Path.names hpath
    rw [FileSystem.names_path (hlocations location hlocation),
      FileSystem.names_path (hnamed.of_node? hnode)] at hnames
    exact hnames ▸ hlocation
  · exact List.mem_map_of_mem

/-- **What is found in one directory** is what is below it. -/
theorem mem_discover_directory (hnamed : fs.Named) (h : Explores fs target start)
    (hdirectory : fs.isDirectory target = true) (hfile : fs.IsFile place) :
    ∃ paths, discover fs [target] = .ok paths ∧
      (place.path ∈ paths ↔ HasNotebook fs start.location place) := by
  have hresolve := (of_opening? h.opens).1
  have hplace := (FileSystem.isDirectory_iff hresolve).mp hdirectory
  have hexplored : Explored fs [target] := by
    intro other hother hdirectory
    rw [List.mem_singleton.mp hother]
    exact ⟨start, h⟩
  have haccepted : Accepted fs [target] := by
    intro other hother
    rw [List.mem_singleton.mp hother]
    refine ⟨(FileSystem.pathExists_iff hresolve).mpr (hplace.imp' _ fun _ => id), fun hforeign => ?_⟩
    rw [hforeign.1] at hdirectory
    cases hdirectory
  refine ⟨_, discover_of_accepted hnamed hexplored haccepted, ?_⟩
  have hmeant {location : Location} := @mem_found_iff_meant fs [target] location hnamed hexplored
    haccepted
  rw [path_mem_map hnamed hfile fun location hlocation =>
    isName_of_meant hnamed haccepted (hmeant.mp hlocation), hmeant]
  constructor
  · rintro ⟨other, ⟨_, htarget, hother⟩, hmeans⟩
    rw [List.mem_singleton.mp htarget, hresolve] at hother
    cases hother
    cases hmeans with
    | itself no_directory => exact absurd hplace.choose_spec (no_directory _)
    | below _ notebook => exact notebook
  · intro hnotebook
    exact ⟨start.location, ⟨target, List.mem_singleton_self _, hresolve⟩, .below hplace hnotebook⟩

/-! ## Both ways -/

section
variable (hdisk : fs.WellFormed) (hnamed : fs.Named) (h : Explores fs target start)
  (hdirectory : fs.isDirectory target = true) (hlocate : fs.locate path = .ok place)
  (hfile : fs.IsFile place) (hbelow : start.location <+: place)
include hdisk hnamed h hdirectory hlocate hfile hbelow

/-- **A file below a directory, both ways**: what is asked of its name if it is given, and what if
the directory is. -/
theorem discover_both_ways :
    ∃ directory name, place = directory ++ [name] ∧
      discover fs [path] = (if notebookSuffix <:+ name ∧ name ≠ notebookSuffix then
        .ok [place.path] else .error (.invalidExtension path)) ∧
      ∃ paths, discover fs [target] = .ok paths ∧
        (place.path ∈ paths ↔ notebookSuffix <:+ name ∨ HasAlias fs start.location place) := by
  obtain ⟨directory, name, rfl, hnames⟩ := FileSystem.names_of_locate hlocate
  have habove : start.location <+: directory := by
    rcases List.prefix_concat_iff.mp hbelow with heq | habove
    · -- the directory is no file
      obtain ⟨bits, hnode⟩ := (FileSystem.isDirectory_iff (of_opening? h.opens).1).mp hdirectory
      exact absurd (heq ▸ hnode) (hfile.not_directory bits)
    · exact habove
  obtain ⟨paths, hpaths, hmem⟩ := mem_discover_directory hnamed h hdirectory hfile
  rw [hasNotebook_iff hdisk hnamed h habove hnames.passes hnames.entry hfile] at hmem
  exact ⟨directory, name, rfl, discover_file hnames hfile, paths, hpaths, hmem⟩

/-- **A file named as nothing but the end of notebooks' names** is found in a directory, and not
accepted by itself. -/
theorem found_of_bare (hbare : place.getLast? = some notebookSuffix) :
    discover fs [path] = .error (.invalidExtension path) ∧
      ∃ paths, discover fs [target] = .ok paths ∧ place.path ∈ paths := by
  obtain ⟨directory, name, rfl, hgiven, paths, hpaths, hmem⟩ :=
    discover_both_ways hdisk hnamed h hdirectory hlocate hfile hbelow
  rw [List.getLast?_concat] at hbare
  cases hbare
  rw [if_neg fun hmore => hmore.2 rfl] at hgiven
  exact ⟨hgiven, paths, hpaths, hmem.mpr (.inl List.suffix_rfl)⟩

/-- **The two ways of naming a notebook agree**: a file below a directory is found in it if it is
accepted by itself, and otherwise only by an alias. -/
theorem found_iff_accepted (hmore : place.getLast? ≠ some notebookSuffix) :
    (discover fs [path] = .ok [place.path] ∨
        discover fs [path] = .error (.invalidExtension path)) ∧
      ∃ paths, discover fs [target] = .ok paths ∧
        (place.path ∈ paths ↔ discover fs [path] = .ok [place.path] ∨
          HasAlias fs start.location place) := by
  obtain ⟨directory, name, rfl, hgiven, paths, hpaths, hmem⟩ :=
    discover_both_ways hdisk hnamed h hdirectory hlocate hfile hbelow
  rw [List.getLast?_concat] at hmore
  have hname : name ≠ notebookSuffix := fun heq => hmore (congrArg some heq)
  by_cases hsuffix : notebookSuffix <:+ name
  · rw [if_pos ⟨hsuffix, hname⟩] at hgiven
    exact ⟨.inl hgiven, paths, hpaths, iff_of_true (hmem.mpr (.inl hsuffix)) (.inl hgiven)⟩
  · rw [if_neg fun hboth => hsuffix hboth.1] at hgiven
    refine ⟨.inr hgiven, paths, hpaths, hmem.trans ?_⟩
    rw [hgiven]
    exact or_congr_left (iff_of_false hsuffix nofun)

end

/-- A file on the shelf is found with the directory that it is deep below, as it is accepted. -/
theorem found_on_shelf :
    discover shelf ["[a]*/in.ipynb/c.ipynb".toList] = .ok ["/[a]*/in.ipynb/c.ipynb".toList] ∧
      ∃ paths, discover shelf ["[a]*".toList] = .ok paths ∧
        "/[a]*/in.ipynb/c.ipynb".toList ∈ paths := by
  have hdisk : shelf.WellFormed := by
    refine ⟨by decide +kernel, ?_⟩
    simp only [shelf, List.forall_mem_cons]
    exact ⟨⟨nofun, _, rfl⟩, ⟨nofun, _, rfl⟩, ⟨nofun, _, rfl⟩, ⟨nofun, _, rfl⟩, ⟨nofun, _, rfl⟩,
      ⟨nofun, _, rfl⟩, ⟨nofun, _, rfl⟩, nofun⟩
  have hnamed : shelf.Named := by decide +kernel
  have hopens : opening? shelf "[a]*".toList =
      some ⟨["[a]*".toList], FileSystem.linkLimit, 4090⟩ := by decide +kernel
  have hgiven : discover shelf ["[a]*/in.ipynb/c.ipynb".toList] =
      .ok [Location.path ["[a]*".toList, "in.ipynb".toList, "c.ipynb".toList]] := by decide +kernel
  obtain ⟨-, paths, hpaths, hmem⟩ := @found_iff_accepted shelf "[a]*".toList
    "[a]*/in.ipynb/c.ipynb".toList _ ["[a]*".toList, "in.ipynb".toList, "c.ipynb".toList] hdisk
    hnamed (.of_ample hnamed hopens (by decide +kernel)) (by decide +kernel) (by decide +kernel)
    ⟨_, _, rfl⟩ (by decide +kernel) (by decide +kernel)
  exact ⟨hgiven, paths, hpaths, hmem.mpr (.inl hgiven)⟩

/-- A directory with a file that is no notebook, and a link to it that is named as one. -/
def labelled : FileSystem :=
  ⟨[(["d".toList], .directory Permission.ofDirectory),
    (["d".toList, "notes.txt".toList], .file [] Permission.ofFile),
    (["d".toList, "x.ipynb".toList], .link "notes.txt".toList)], []⟩

/-- **A file that is found and not accepted**: its own name is no notebook's, its alias's is. -/
theorem found_by_alias :
    labelled.locate "d/notes.txt".toList = .ok ["d".toList, "notes.txt".toList] ∧
      labelled.IsFile ["d".toList, "notes.txt".toList] ∧
      discover labelled ["d".toList] = .ok ["/d/notes.txt".toList] ∧
      discover labelled ["d/notes.txt".toList] =
        .error (.invalidExtension "d/notes.txt".toList) :=
  ⟨by decide +kernel, ⟨_, _, rfl⟩, by decide +kernel, by decide +kernel⟩

end Discovery
end NotebookTidy
