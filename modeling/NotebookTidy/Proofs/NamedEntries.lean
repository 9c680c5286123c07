import Mathlib.Data.List.Basic
import NotebookTidy.Proofs.WalkFrames

/-!
# The entries that paths name

A path names an entry in a directory, whether or not anything is there, and the entry that it names
is the one that `locate` finds (`locate_eq_ok_iff`).

The way to that directory may lead by the entry itself, if a link is there.  Put a file in its place,
and the way is blocked: nothing leads on from a file (`Walks.of_deadEnd`).  So after the entry has
been replaced its path leads to it exactly if the path named it without the entry as well
(`resolve_put_iff`).
-/

namespace NotebookTidy
namespace FileSystem

variable {fs fs' : FileSystem} {path : Text} {directory location place last : Location}
  {name : Text} {node : Node} {steps : List Text} {links left : Nat}

/-! ## File systems that differ in one entry -/

/-- **Two file systems differ at one location** at most. -/
structure SameBut (fs fs' : FileSystem) (place : Location) : Prop where
  /-- The directory that a process works in is the same. -/
  here_eq : fs'.here = fs.here
  /-- Every other location has the same entry. -/
  frame : ∀ other, other ≠ place → fs'.node? other = fs.node? other

theorem SameBut.symm (h : fs.SameBut fs' place) : fs'.SameBut fs place :=
  ⟨h.here_eq.symm, fun other hother => (h.frame other hother).symm⟩

theorem SameBut.trans {fs'' : FileSystem} (h : fs.SameBut fs' place) (k : fs'.SameBut fs'' place) :
    fs.SameBut fs'' place :=
  ⟨k.here_eq.trans h.here_eq, fun other hother => (k.frame other hother).trans (h.frame other hother)⟩

theorem sameBut_put (hplace : place ≠ []) (fs : FileSystem) (node : Node) :
    fs.SameBut (fs.put place node) place :=
  ⟨rfl, fun other hother => by rw [node?_put hplace, if_neg hother]⟩

theorem sameBut_erase (hplace : place ≠ []) (fs : FileSystem) :
    fs.SameBut (fs.erase place) place :=
  ⟨rfl, fun other hother => by rw [node?_erase hplace, if_neg hother]⟩

/-- What is the same but for an entry where nothing was keeps all there was. -/
theorem SameBut.keeps (h : fs.SameBut fs' place) (hfree : fs.node? place = none) :
    fs.Keeps fs' := by
  refine ⟨h.here_eq, fun location node hnode => ?_⟩
  have hother : location ≠ place := by
    rintro rfl
    rw [hfree] at hnode
    cases hnode
  rw [h.frame location hother, hnode]

/-- **Nothing leads on** from a location: no directory and no link is there. -/
def DeadEnd (fs : FileSystem) (place : Location) : Prop :=
  (∀ bits, fs.node? place ≠ some (.directory bits)) ∧
    ∀ target, fs.node? place ≠ some (.link target)

theorem IsFile.deadEnd (h : fs.IsFile place) : fs.DeadEnd place := by
  refine ⟨h.not_directory, fun target hlink => ?_⟩
  obtain ⟨content, bits, hnode⟩ := h
  rw [hnode] at hlink
  cases hlink

section
variable (hsame : fs.SameBut fs' place) (hend : fs.DeadEnd place)
include hsame hend

theorem passes_of_deadEnd (h : fs.Passes location) : fs'.Passes location := by
  obtain ⟨bits, hnode, hsearch⟩ := h
  have hother : location ≠ place := by
    rintro rfl
    exact hend.1 bits hnode
  exact ⟨bits, (hsame.frame _ hother).trans hnode, hsearch⟩

/-- **A walk that does not end where nothing leads on** never came there, so it makes no difference
to the walk what else may be there. -/
theorem Walks.of_deadEnd (h : fs.Walks location steps links last left) :
    last = place ∨ fs'.Walks location steps links last left := by
  induction h with
  | arrived location links => exact .inr (.arrived location links)
  | @hop location next last name rest links left first onward ih =>
    cases first with
    | rest hdirectory =>
      obtain ⟨bits, hnode⟩ := hdirectory
      have hother : location ≠ place := by
        rintro rfl
        exact hend.1 bits hnode
      exact ih.imp_right (.hop (.rest ⟨bits, (hsame.frame _ hother).trans hnode⟩))
    | stay passes => exact ih.imp_right (.hop (.stay (passes_of_deadEnd hsame hend passes)))
    | rise passes => exact ih.imp_right (.hop (.rise (passes_of_deadEnd hsame hend passes)))
    | enter passes entry found no_link =>
      by_cases hother : location ++ [name] = place
      · rw [hother] at onward
        exact .inl (onward.of_not_directory hend.1).2
      · exact ih.imp_right (.hop (.enter (passes_of_deadEnd hsame hend passes) entry
          ((hsame.frame _ hother).trans found) no_link))
  | @follow location last name target rest links left passes entry found leads onward ih =>
    have hother : location ++ [name] ≠ place := by
      rintro rfl
      exact hend.2 target found
    exact ih.imp_right (.follow (passes_of_deadEnd hsame hend passes) entry
      ((hsame.frame _ hother).trans found) leads)

end

/-! ## What paths name -/

namespace Names

theorem getLast?_names (h : fs.Names path directory name) :
    (Path.names path).getLast? = some name := by
  have hlast := congrArg List.getLast? h.steps_eq
  rw [Path.steps, List.getLast?_concat] at hlast
  split at hlast
  · rw [List.getLast?_concat] at hlast
    exact absurd (Option.some.inj hlast).symm h.entry.1
  · rwa [List.append_nil] at hlast

/-- A path leads to the entry that it names, unless that is a link. -/
theorem resolve (h : fs.Names path directory name)
    (hnode : fs.node? (directory ++ [name]) = some node) (hlink : ∀ target, node ≠ .link target) :
    fs.resolve path = .ok (directory ++ [name]) := by
  obtain ⟨left, hleads⟩ := h.leads
  refine resolve_eq_ok_iff.mpr ⟨h.accepted, left, ?_⟩
  rw [h.steps_eq]
  exact hleads.trans (.hop (.enter h.passes h.entry hnode hlink) (.arrived _ _))

/-- The entry that a path names is found. -/
theorem locate (h : fs.Names path directory name) : fs.locate path = .ok (directory ++ [name]) := by
  obtain ⟨left, hleads⟩ := h.leads
  have hwalk : fs.walk (fs.origin path) ((Path.names path).dropLast ++ [Path.here]) linkLimit =
      .ok (directory, left) :=
    walk_eq_ok_iff.mpr (hleads.trans (.hop (.stay h.passes) (.arrived _ _)))
  obtain ⟨-, hhere, habove, hlimit⟩ := h.entry
  have hlast : Path.lastName? path = some name := by
    rw [Path.lastName?, h.getLast?_names]
    simp [hhere, habove]
  have hslash : Path.endsInSlash path = false := by
    refine Bool.eq_false_iff.mpr fun hslash => ?_
    have hsteps := congrArg List.getLast? h.steps_eq
    rw [Path.steps, if_pos hslash, List.getLast?_concat, List.getLast?_concat] at hsteps
    exact h.entry.1 (Option.some.inj hsteps).symm
  simp only [FileSystem.locate, parent, h.accepted, bind, Except.bind, hwalk, hlast,
    Nat.not_lt.mpr hlimit, hslash, if_false, Bool.false_eq_true]

theorem mono (hkeeps : fs.Keeps fs') (h : fs.Names path directory name) :
    fs'.Names path directory name := by
  obtain ⟨left, hleads⟩ := h.leads
  refine ⟨h.accepted, h.steps_eq, ⟨left, ?_⟩, hkeeps.passes h.passes, h.entry⟩
  rw [origin_congr hkeeps.1]
  exact hleads.mono hkeeps

/-- **What a path names** does not depend on what is where nothing leads on. -/
theorem of_deadEnd (hsame : fs.SameBut fs' place) (hend : fs.DeadEnd place)
    (h : fs.Names path directory name) : fs'.Names path directory name := by
  obtain ⟨left, hleads⟩ := h.leads
  refine ⟨h.accepted, h.steps_eq, ⟨left, ?_⟩, passes_of_deadEnd hsame hend h.passes, h.entry⟩
  rw [origin_congr hsame.here_eq]
  refine (hleads.of_deadEnd hsame hend).resolve_left ?_
  rintro rfl
  obtain ⟨bits, hdirectory, -⟩ := h.passes
  exact hend.1 bits hdirectory

end Names

/-- **The entry that a path names** is the one that is found. -/
theorem locate_eq_ok_iff :
    fs.locate path = .ok place ↔
      ∃ directory name, place = directory ++ [name] ∧ fs.Names path directory name := by
  constructor
  · exact names_of_locate
  · rintro ⟨directory, name, rfl, hnames⟩
    exact hnames.locate

/-- What is found does not depend on what is where nothing leads on. -/
theorem locate_of_deadEnd (hsame : fs.SameBut fs' place) (hend : fs.DeadEnd place)
    (h : fs.locate path = .ok location) : fs'.locate path = .ok location := by
  obtain ⟨directory, name, rfl, hnames⟩ := locate_eq_ok_iff.mp h
  exact (hnames.of_deadEnd hsame hend).locate

/-- **Where a path leads once a file has been put where it named something**: to the file, exactly
if it names the same without what was there. -/
theorem resolve_put_iff (h : fs.locate path = .ok place) (content : Octets) (bits : Nat) :
    (fs.put place (.file content bits)).resolve path = .ok place ↔
      (fs.erase place).locate path = .ok place := by
  obtain ⟨directory, name, rfl, hnames⟩ := locate_eq_ok_iff.mp h
  have hne : directory ++ [name] ≠ [] := by simp
  have hput := sameBut_put hne fs (.file content bits)
  have herase := sameBut_erase hne fs
  have hnode : (fs.put (directory ++ [name]) (.file content bits)).node? (directory ++ [name]) =
      some (.file content bits) := by rw [node?_put hne, if_pos rfl]
  have hfile : (fs.put (directory ++ [name]) (.file content bits)).IsFile (directory ++ [name]) :=
    ⟨content, bits, hnode⟩
  constructor
  · intro hresolve
    obtain ⟨haccept, left, hwalks⟩ := resolve_eq_ok_iff.mp hresolve
    rw [hnames.steps_eq] at hwalks
    obtain ⟨between, spared, hfirst, hlast⟩ := hwalks.cut
    obtain ⟨hpasses, -, -⟩ := hlast.of_entry hnames.entry
    have hnamed : (fs.put (directory ++ [name]) (.file content bits)).Names path between name :=
      ⟨haccept, hnames.steps_eq, ⟨spared, hfirst⟩, hpasses, hnames.entry⟩
    -- with what was there before, the path named the same
    have hbefore := (hnamed.of_deadEnd hput.symm hfile.deadEnd).locate
    rw [h] at hbefore
    cases (List.append_inj' (Except.ok.inj hbefore) rfl).1
    exact (hnamed.of_deadEnd (hput.symm.trans herase) hfile.deadEnd).locate
  · intro hlocate
    obtain ⟨directory', name', heq, hnames'⟩ := locate_eq_ok_iff.mp hlocate
    obtain ⟨rfl, hname⟩ := List.append_inj' heq rfl
    cases hname
    have hfree : (fs.erase (directory ++ [name])).node? (directory ++ [name]) = none := by
      rw [node?_erase hne, if_pos rfl]
    have hkeeps := (herase.symm.trans hput).keeps hfree
    exact (hnames'.mono hkeeps).resolve hnode nofun

/-! ## The bits that a path leads to -/

theorem bits_eq_ok_iff {bits : Nat} :
    fs.bits path = .ok bits ↔ ∃ place, fs.resolve path = .ok place ∧
      ((∃ content, fs.node? place = some (.file content bits)) ∨
        fs.node? place = some (.directory bits)) := by
  constructor
  · intro h
    obtain ⟨node, hfollow, h⟩ := ok_of_bind h
    obtain ⟨place, hresolve, hnode⟩ := follow_eq_ok_iff.mp hfollow
    refine ⟨place, hresolve, ?_⟩
    cases node with
    | file content bits' =>
      cases h
      exact .inl ⟨content, hnode⟩
    | directory bits' =>
      cases h
      exact .inr hnode
    | link target => cases h
  · rintro ⟨place, hresolve, ⟨content, hnode⟩ | hnode⟩
    · rw [FileSystem.bits, follow_eq_ok_iff.mpr ⟨place, hresolve, hnode⟩]
      rfl
    · rw [FileSystem.bits, follow_eq_ok_iff.mpr ⟨place, hresolve, hnode⟩]
      rfl

/-- **A file where nothing was** gives no other bits than its own to paths that led nowhere. -/
theorem bits_put (hplace : place ≠ []) (hfree : fs.node? place = none) (content : Octets)
    (bits : Nat) (path : Text) :
    ((fs.put place (.file content bits)).bits path).toOption.getD bits =
      (fs.bits path).toOption.getD bits := by
  have hput := sameBut_put hplace fs (.file content bits)
  have hkeeps := hput.keeps hfree
  have hnode : (fs.put place (.file content bits)).node? place = some (.file content bits) := by
    rw [node?_put hplace, if_pos rfl]
  rcases hbefore : fs.bits path with fault | old
  · rcases hafter : (fs.put place (.file content bits)).bits path with fault' | new
    · rfl
    · -- the path leads to the new file, and there only
      obtain ⟨location, hresolve, hlocation⟩ := bits_eq_ok_iff.mp hafter
      obtain ⟨haccept, left, hwalks⟩ := resolve_eq_ok_iff.mp hresolve
      have hfile : (fs.put place (.file content bits)).IsFile place := ⟨content, bits, hnode⟩
      by_cases hsame : location = place
      · rw [hsame, hnode] at hlocation
        rcases hlocation with ⟨_, heq⟩ | heq
        · cases heq
          rfl
        · cases heq
      · have hwalks' := (hwalks.of_deadEnd hput.symm hfile.deadEnd).resolve_left hsame
        rw [hput.frame location hsame] at hlocation
        rw [origin_congr hput.here_eq] at hwalks'
        have hthere := bits_eq_ok_iff.mpr
          ⟨location, resolve_eq_ok_iff.mpr ⟨haccept, left, hwalks'⟩, hlocation⟩
        rw [hbefore] at hthere
        cases hthere
  · obtain ⟨location, hresolve, hlocation⟩ := bits_eq_ok_iff.mp hbefore
    have hlocation' := hlocation.imp (Exists.imp fun _ => hkeeps.2 _ _) (hkeeps.2 _ _)
    rw [bits_eq_ok_iff.mpr ⟨location, resolve_mono hkeeps hresolve, hlocation'⟩]

end FileSystem
end NotebookTidy
