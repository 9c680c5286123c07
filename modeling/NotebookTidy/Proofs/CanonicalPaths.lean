import Mathlib.Data.List.Basic
import Mathlib.Data.List.Induction
import NotebookTidy.FileSystem.Action
import NotebookTidy.Proofs.DiskActions

/-!
# Canonical paths

A path is **canonical** if it is the path of the location that it leads to.  In a file system that
is well formed such a path meets no link: everything above an entry is a directory, so the walk
goes straight down by the names of the location (`Straight`).

Where a straight path leads depends on little: on the directories above, and on what stands at its
end.  So it leads to the same location in every file system that has the same directories, and what
is read there, what bits there are, and which location is replaced, can be told from the node at
that location alone (`Straight.resolve` to `Straight.locate`).
-/

namespace NotebookTidy

/-! ## Pieces of a path -/

theorem Text.not_mem_splitAt {mark : Char} {t piece : Text} (h : piece ∈ Text.splitAt mark t) :
    mark ∉ piece := by
  induction t generalizing piece with
  | nil =>
    rw [Text.splitAt, List.mem_singleton] at h
    simp [h]
  | cons c rest ih =>
    rw [Text.splitAt] at h
    split at h
    · rw [List.mem_singleton] at h
      simp [h]
    · next first pieces hsplit =>
      split at h
      · rcases List.mem_cons.mp h with rfl | h
        · simp
        · exact ih (hsplit ▸ h)
      · next hc =>
        rcases List.mem_cons.mp h with rfl | h
        · have hfirst := ih (hsplit ▸ List.mem_cons_self)
          simp only [List.mem_cons, not_or]
          exact ⟨fun he => hc he.symm, hfirst⟩
        · exact ih (hsplit ▸ List.mem_cons_of_mem _ h)

theorem Text.splitAt_cons_mark (mark : Char) (t : Text) :
    Text.splitAt mark (mark :: t) = [] :: Text.splitAt mark t := by
  rw [Text.splitAt]
  rcases h : Text.splitAt mark t with - | ⟨piece, pieces⟩
  · exact absurd h (Text.splitAt_ne_nil mark t)
  · simp

/-- Names behind slashes are the pieces between them. -/
theorem Text.splitAt_names {names : List Text} (h : ∀ name ∈ names, '/' ∉ name) {first : Text}
    (hfirst : '/' ∉ first) :
    Text.splitAt '/' (first ++ names.flatMap fun name => '/' :: name) = first :: names := by
  induction names generalizing first with
  | nil =>
    induction first with
    | nil => rfl
    | cons c rest ih =>
      simp only [List.mem_cons, not_or] at hfirst
      have hc : ¬ c = '/' := fun he => hfirst.1 he.symm
      rw [List.cons_append, Text.splitAt, ih hfirst.2]
      simp [hc]
  | cons name names ih =>
    obtain ⟨hname, hnames⟩ := List.forall_mem_cons.mp h
    have hrest := ih hnames hname
    induction first with
    | nil =>
      rw [List.nil_append, List.flatMap_cons, List.cons_append, Text.splitAt_cons_mark, hrest]
    | cons c rest ihfirst =>
      simp only [List.mem_cons, not_or] at hfirst
      have hc : ¬ c = '/' := fun he => hfirst.1 he.symm
      rw [List.cons_append, Text.splitAt, ihfirst hfirst.2]
      simp [hc]

namespace FileSystem

/-- **A name that a walk can go by**, and not a step to a directory itself or upwards. -/
def IsName (name : Text) : Prop :=
  name ≠ [] ∧ name ≠ Path.here ∧ name ≠ Path.above ∧ '/' ∉ name ∧
    (Utf8.encode name).length ≤ nameLimit

/-- The path leads to a location and is the path of that location. -/
def Canonical (fs : FileSystem) (path : Text) (location : Location) : Prop :=
  fs.resolve path = .ok location ∧ path = location.path

theorem not_slash_of_steps {path step : Text} (h : step ∈ Path.steps path) : '/' ∉ step := by
  rcases List.mem_append.mp h with h | h
  · exact Text.not_mem_splitAt (List.mem_filter.mp h).1
  · split at h
    · rw [List.mem_singleton.mp h]
      simp
    · cases h

/-! ## Where walks lead -/

/-- What is known of the point to which a walk has got: it has names of its own, and the steps
left have no slash. -/
def Arrival.Named : Arrival → Prop
  | .arrived location => ∀ name ∈ location, IsName name
  | .link directory _ rest => (∀ name ∈ directory, IsName name) ∧ ∀ step ∈ rest, '/' ∉ step

theorem named_of_advance {fs : FileSystem} {location : Location} {steps : List Text}
    {arrival : Arrival} (hlocation : ∀ name ∈ location, IsName name)
    (hsteps : ∀ step ∈ steps, '/' ∉ step) (h : fs.advance location steps = .ok arrival) :
    arrival.Named := by
  induction steps generalizing location with
  | nil =>
    cases h
    exact hlocation
  | cons name rest ih =>
    obtain ⟨hname, hrest⟩ := List.forall_mem_cons.mp hsteps
    rw [advance] at h
    split at h
    · split at h
      · exact ih hlocation hrest h
      · next hempty =>
        split at h
        · cases h
        · split at h
          · exact ih hlocation hrest h
          · next hhere =>
            split at h
            · exact ih (fun n hn => hlocation n (List.dropLast_subset _ hn)) hrest h
            · next habove =>
              split at h
              · cases h
              · next hlimit =>
                have hextended : ∀ n ∈ location ++ [name], IsName n := by
                  intro n hn
                  rcases List.mem_append.mp hn with hn | hn
                  · exact hlocation n hn
                  · rw [List.mem_singleton.mp hn]
                    exact ⟨hempty, hhere, habove, hname, Nat.not_lt.mp hlimit⟩
                split at h
                · cases h
                · cases h
                  exact ⟨hlocation, hrest⟩
                · exact ih hextended hrest h
    · cases h

theorem named_of_walk {fs : FileSystem} {location arrived : Location} {steps : List Text}
    {links left : Nat} (hlocation : ∀ name ∈ location, IsName name)
    (hsteps : ∀ step ∈ steps, '/' ∉ step)
    (h : fs.walk location steps links = .ok (arrived, left)) :
    ∀ name ∈ arrived, IsName name := by
  induction links generalizing location steps with
  | zero =>
    rw [walk] at h
    split at h
    · cases h
    · next hadvance =>
      cases h
      exact named_of_advance hlocation hsteps hadvance
    · cases h
  | succ links ih =>
    rw [walk] at h
    split at h
    · cases h
    · next hadvance =>
      cases h
      exact named_of_advance hlocation hsteps hadvance
    · next directory target rest hadvance =>
      obtain ⟨hdirectory, hrest⟩ := named_of_advance hlocation hsteps hadvance
      split at h
      · cases h
      · refine ih ?_ ?_ h
        · split
          · simp
          · exact hdirectory
        · intro step hstep
          rcases List.mem_append.mp hstep with hstep | hstep
          · exact not_slash_of_steps hstep
          · exact hrest step hstep

/-- An absolute path leads to a location with names of its own. -/
theorem named_of_resolve {fs : FileSystem} {path : Text} {location : Location}
    (habsolute : Path.isAbsolute path = true) (h : fs.resolve path = .ok location) :
    ∀ name ∈ location, IsName name := by
  rcases harrive : fs.arrive path with fault | ⟨arrived, left⟩
  · simp [resolve, harrive, Except.map] at h
  · simp only [resolve, harrive, Except.map, Except.ok.injEq] at h
    subst h
    obtain ⟨-, -, hwalk⟩ := ok_of_bind harrive
    rw [origin, if_pos habsolute] at hwalk
    exact named_of_walk (by simp) (fun _ => not_slash_of_steps) hwalk

/-! ## Straight walks -/

/-- Every step from a location on leads through a directory that may be searched. -/
def Passable (fs : FileSystem) : Location → List Text → Prop
  | _, [] => True
  | location, name :: rest =>
    (∃ bits, fs.node? location = some (.directory bits) ∧
      Permission.grants bits .search = true) ∧
      Passable fs (location ++ [name]) rest

/-- The directories of a file system are there in another one too. -/
def KeepsDirectories (fs fs' : FileSystem) : Prop :=
  ∀ location bits, fs.node? location = some (.directory bits) →
    fs'.node? location = some (.directory bits)

theorem Passable.mono {fs fs' : FileSystem} (hkeeps : KeepsDirectories fs fs')
    {location : Location} {names : List Text} (h : fs.Passable location names) :
    fs'.Passable location names := by
  induction names generalizing location with
  | nil => trivial
  | cons name rest ih =>
    obtain ⟨⟨bits, hnode, hgrants⟩, hrest⟩ := h
    exact ⟨⟨bits, hkeeps location bits hnode, hgrants⟩, ih hrest⟩

theorem Passable.node? {fs : FileSystem} {location : Location} {names : List Text} {last : Text}
    (h : fs.Passable location (names ++ [last])) :
    ∃ bits, fs.node? (location ++ names) = some (.directory bits) ∧
      Permission.grants bits .search = true := by
  induction names generalizing location with
  | nil => simpa using h.1
  | cons name rest ih => simpa using ih h.2

/-- **A walk through directories** goes straight down. -/
theorem Passable.advance {fs : FileSystem} {location : Location} {names : List Text} {last : Text}
    (h : fs.Passable location (names ++ [last])) (hnames : ∀ name ∈ names, IsName name)
    (steps : List Text) :
    fs.advance location (names ++ steps) = fs.advance (location ++ names) steps := by
  induction names generalizing location with
  | nil => simp
  | cons name rest ih =>
    obtain ⟨⟨bits, hnode, hgrants⟩, hrest⟩ := h
    obtain ⟨⟨hempty, hhere, habove, -, hlimit⟩, hnames⟩ := List.forall_mem_cons.mp hnames
    have hnext : ∃ bits, fs.node? (location ++ [name]) = some (.directory bits) := by
      cases rest with
      | nil => exact ⟨_, hrest.1.choose_spec.1⟩
      | cons next rest => exact ⟨_, hrest.1.choose_spec.1⟩
    obtain ⟨bits', hnext⟩ := hnext
    have hstep : fs.advance location (name :: (rest ++ steps)) =
        fs.advance (location ++ [name]) (rest ++ steps) := by
      rw [FileSystem.advance, hnode]
      simp [hempty, hgrants, hhere, habove, Nat.not_lt.mpr hlimit, hnext]
    rw [List.cons_append, hstep, ih hrest hnames, List.append_assoc]
    rfl

/-- **A path that spells a location**: its names are the location's, and are names to go by. -/
structure Spells (path : Text) (directory : Location) (name : Text) : Prop where
  /-- The path is the location's. -/
  path_eq : path = Location.path (directory ++ [name])
  /-- Its names are names. -/
  named : ∀ n ∈ directory ++ [name], IsName n

namespace Spells
variable {path : Text} {directory : Location} {name : Text}

theorem isName (h : Spells path directory name) : IsName name :=
  h.named name (List.mem_append_right _ List.mem_cons_self)

theorem path_cons (h : Spells path directory name) :
    path = [] ++ (directory ++ [name]).flatMap fun n => '/' :: n := by
  rw [h.path_eq, Location.path, if_neg (by simp), List.nil_append]

theorem names (h : Spells path directory name) : Path.names path = directory ++ [name] := by
  have hslash : ∀ n ∈ directory ++ [name], '/' ∉ n := fun n hn => (h.named n hn).2.2.2.1
  rw [Path.names, h.path_cons, Text.splitAt_names hslash (by simp)]
  rw [List.filter_cons_of_neg (by simp), List.filter_eq_self]
  exact fun n hn => by simpa using (h.named n hn).1

theorem not_endsInSlash (h : Spells path directory name) : Path.endsInSlash path = false := by
  obtain ⟨hempty, -, -, hslash, -⟩ := h.isName
  have hlast : path.getLast? = name.getLast? := by
    rw [h.path_cons, List.nil_append, List.flatMap_append, List.flatMap_singleton]
    rw [List.getLast?_append, List.getLast?_cons]
    rcases hname : name.getLast? with - | c
    · exact absurd (List.getLast?_eq_none_iff.mp hname) hempty
    · simp
  rw [Path.endsInSlash, hlast, decide_eq_false_iff_not]
  exact fun hc => hslash (List.mem_of_getLast? hc)

theorem isAbsolute (h : Spells path directory name) : Path.isAbsolute path = true := by
  rw [Path.isAbsolute, h.path_cons]
  cases directory <;> rfl

theorem steps (h : Spells path directory name) : Path.steps path = directory ++ [name] := by
  rw [Path.steps, h.names, h.not_endsInSlash]
  simp

theorem lastName? (h : Spells path directory name) : Path.lastName? path = some name := by
  obtain ⟨-, hhere, habove, -, -⟩ := h.isName
  rw [Path.lastName?, h.names, List.getLast?_concat]
  simp [hhere, habove]

end Spells

/-- **A path that goes straight to a place** in a directory: it spells the location, and leads
there through directories that may be searched. -/
structure Straight (fs : FileSystem) (path : Text) (directory : Location) (name : Text) : Prop
    extends Spells path directory name where
  /-- It is a path at all. -/
  accepted : accept path = .ok ()
  /-- It leads through directories. -/
  passable : fs.Passable [] (directory ++ [name])

namespace Straight
variable {fs : FileSystem} {path : Text} {directory : Location} {name : Text}

theorem mono {fs' : FileSystem} (h : fs.Straight path directory name)
    (hkeeps : KeepsDirectories fs fs') : fs'.Straight path directory name :=
  ⟨h.toSpells, h.accepted, h.passable.mono hkeeps⟩

/-- **A straight path leads to its location**, if something is there that is no link. -/
theorem resolve_node (h : fs.Straight path directory name) {node : Node}
    (hnode : fs.node? (directory ++ [name]) = some node) (hlink : ∀ target, node ≠ .link target) :
    fs.resolve path = .ok (directory ++ [name]) := by
  have hdirectory : ∀ n ∈ directory, IsName n := fun n hn =>
    h.named n (List.mem_append_left _ hn)
  obtain ⟨bits', hparent, hgrants⟩ := h.passable.node?
  obtain ⟨hempty, hhere, habove, -, hlimit⟩ := h.isName
  rw [List.nil_append] at hparent
  have hadvance : fs.advance [] (directory ++ [name]) = .ok (.arrived (directory ++ [name])) := by
    rw [h.passable.advance hdirectory, List.nil_append, FileSystem.advance, hparent]
    cases node with
    | link target => exact absurd rfl (hlink target)
    | _ => simp [hempty, hgrants, hhere, habove, Nat.not_lt.mpr hlimit, hnode, FileSystem.advance]
  have hwalk : fs.walk [] (directory ++ [name]) linkLimit =
      .ok (directory ++ [name], linkLimit) := by
    rw [linkLimit, FileSystem.walk, hadvance]
  rw [FileSystem.resolve, arrive, h.accepted, origin, if_pos h.isAbsolute, h.steps]
  simp only [bind, Except.bind, hwalk]
  rfl

/-- A straight path leads to the file at its location. -/
theorem resolve (h : fs.Straight path directory name) {content : Octets} {bits : Nat}
    (hnode : fs.node? (directory ++ [name]) = some (.file content bits)) :
    fs.resolve path = .ok (directory ++ [name]) :=
  h.resolve_node hnode nofun

theorem follow (h : fs.Straight path directory name) {content : Octets} {bits : Nat}
    (hnode : fs.node? (directory ++ [name]) = some (.file content bits)) :
    fs.follow path = .ok (.file content bits) := by
  simp only [FileSystem.follow, h.resolve hnode, bind, Except.bind, hnode]

theorem read (h : fs.Straight path directory name) {content : Octets} {bits : Nat}
    (hnode : fs.node? (directory ++ [name]) = some (.file content bits))
    (hgrants : Permission.grants bits .read = true) : fs.read path = .ok content := by
  simp only [FileSystem.read, h.follow hnode, bind, Except.bind, hgrants, if_true]

theorem bits (h : fs.Straight path directory name) {content : Octets} {bits : Nat}
    (hnode : fs.node? (directory ++ [name]) = some (.file content bits)) :
    fs.bits path = .ok bits := by
  simp only [FileSystem.bits, h.follow hnode, bind, Except.bind]

/-- What is replaced by way of a straight path is what is at its location. -/
theorem locate (h : fs.Straight path directory name) :
    fs.locate path = .ok (directory ++ [name]) := by
  have hdirectory : ∀ n ∈ directory, IsName n := fun n hn =>
    h.named n (List.mem_append_left _ hn)
  obtain ⟨bits', hparent, hgrants⟩ := h.passable.node?
  obtain ⟨-, -, -, -, hlimit⟩ := h.isName
  rw [List.nil_append] at hparent
  -- the parent is where the names before the last one lead, with a dot at their end
  have hadvance : fs.advance [] (directory ++ [Path.here]) = .ok (.arrived directory) := by
    rw [h.passable.advance hdirectory, List.nil_append, FileSystem.advance, hparent]
    simp [hgrants, Path.here, FileSystem.advance]
  have hwalk : fs.walk [] (directory ++ [Path.here]) linkLimit = .ok (directory, linkLimit) := by
    rw [linkLimit, FileSystem.walk, hadvance]
  have hparent : fs.parent path = .ok (directory, some name) := by
    rw [FileSystem.parent, h.accepted, origin, if_pos h.isAbsolute, h.names, h.lastName?,
      List.dropLast_concat]
    simp only [bind, Except.bind, hwalk]
  rw [FileSystem.locate, hparent]
  simp [bind, Except.bind, Nat.not_lt.mpr hlimit, h.not_endsInSlash]

end Straight

/-! ## Canonical paths go straight -/

theorem mem_of_nodeIn? {location : Location} {node : Node} {entries : List (Location × Node)}
    (h : nodeIn? location entries = some node) : (location, node) ∈ entries := by
  induction entries with
  | nil => cases h
  | cons entry rest ih =>
    obtain ⟨l, n⟩ := entry
    rw [nodeIn?] at h
    split at h
    · next hl =>
      cases h
      exact hl ▸ List.mem_cons_self
    · exact List.mem_cons_of_mem _ (ih h)

/-- **Everything above an entry is a directory.** -/
theorem WellFormed.directory_above {fs : FileSystem} (hw : fs.WellFormed) {location : Location}
    {names : List Text} (hnames : names ≠ []) (h : fs.node? (location ++ names) ≠ none) :
    ∃ bits, fs.node? location = some (.directory bits) := by
  induction names using List.reverseRecOn with
  | nil => exact absurd rfl hnames
  | append_singleton front last ih =>
    obtain ⟨node, hnode⟩ := Option.ne_none_iff_exists'.mp h
    rw [FileSystem.node?, if_neg (by simp)] at hnode
    obtain ⟨-, bits, hparent⟩ := hw.2 _ (mem_of_nodeIn? hnode)
    rw [← List.append_assoc, List.dropLast_concat] at hparent
    by_cases hfront : front = []
    · subst hfront
      rw [List.append_nil] at hparent
      exact ⟨bits, hparent⟩
    · exact ih hfront (by rw [hparent]; exact Option.some_ne_none _)

/-- A walk that gets through directories was let through by each. -/
theorem passable_of_advance {fs : FileSystem} {location : Location} {names : List Text}
    {arrival : Arrival} (hnames : ∀ name ∈ names, IsName name)
    (habove : ∀ front back, names = front ++ back → back ≠ [] →
      ∃ bits, fs.node? (location ++ front) = some (.directory bits))
    (h : fs.advance location names = .ok arrival) : fs.Passable location names := by
  induction names generalizing location with
  | nil => trivial
  | cons name rest ih =>
    obtain ⟨⟨hempty, hhere, habove', -, hlimit⟩, hrest⟩ := List.forall_mem_cons.mp hnames
    obtain ⟨bits, hnode⟩ := habove [] (name :: rest) rfl (List.cons_ne_nil _ _)
    rw [List.append_nil] at hnode
    by_cases hgrants : Permission.grants bits .search = true
    · refine ⟨⟨bits, hnode, hgrants⟩, ?_⟩
      by_cases hend : rest = []
      · rw [hend]
        trivial
      · obtain ⟨bits', hnext⟩ := habove [name] rest rfl hend
        have hadvance : fs.advance (location ++ [name]) rest = .ok arrival := by
          rw [advance, hnode] at h
          simpa [hempty, hgrants, hhere, habove', Nat.not_lt.mpr hlimit, hnext] using h
        refine ih hrest (fun front back hsplit hback => ?_) hadvance
        have hfront := habove (name :: front) back (by rw [hsplit]; rfl) hback
        simpa using hfront
    · rw [advance, hnode] at h
      simp [hempty, hgrants] at h

/-- What a path that is resolved is read as is the content of the file where it leads. -/
theorem of_read {fs : FileSystem} {path : Text} {location : Location} {octets : Octets}
    (hresolve : fs.resolve path = .ok location) (h : fs.read path = .ok octets) :
    ∃ bits, fs.node? location = some (.file octets bits) ∧
      Permission.grants bits .read = true := by
  obtain ⟨node, hfollow, h⟩ := ok_of_bind h
  obtain ⟨location', hresolve', hfollow⟩ := ok_of_bind hfollow
  rw [hresolve] at hresolve'
  cases hresolve'
  split at hfollow
  · next found hfound =>
    cases hfollow
    split at h
    · next content bits =>
      split at h
      · next hgrants =>
        cases h
        exact ⟨bits, hfound, hgrants⟩
      · cases h
    · cases h
    · cases h
  · cases hfollow

/-- **A canonical path to a file goes straight** in a well-formed file system. -/
theorem straight_of_canonical {fs : FileSystem} (hw : fs.WellFormed) {path : Text}
    {location : Location} (hcanonical : fs.Canonical path location) {octets : Octets}
    (hread : fs.read path = .ok octets) :
    ∃ directory name bits, location = directory ++ [name] ∧ fs.Straight path directory name ∧
      fs.node? location = some (.file octets bits) ∧ Permission.grants bits .read = true := by
  obtain ⟨hresolve, hpath⟩ := hcanonical
  obtain ⟨bits, hnode, hgrants⟩ := of_read hresolve hread
  rcases List.eq_nil_or_concat' location with rfl | ⟨directory, name, rfl⟩
  · -- the root is no file
    rw [node?, if_pos rfl] at hnode
    cases hnode
  · have habsolute : Path.isAbsolute path = true := by
      rw [Path.isAbsolute, hpath, Location.path, if_neg (by simp)]
      cases directory <;> rfl
    have hspells : Spells path directory name := ⟨hpath, named_of_resolve habsolute hresolve⟩
    rcases harrive : fs.arrive path with fault | ⟨arrived, left⟩
    · simp [resolve, harrive, Except.map] at hresolve
    · obtain ⟨⟨⟩, haccept, hwalk⟩ := ok_of_bind harrive
      rw [origin, if_pos habsolute, hspells.steps, linkLimit, walk] at hwalk
      obtain ⟨arrival, hadvance⟩ : ∃ arrival,
          fs.advance [] (directory ++ [name]) = .ok arrival := by
        split at hwalk
        · cases hwalk
        · next hadvance => exact ⟨_, hadvance⟩
        · next hadvance => exact ⟨_, hadvance⟩
      -- the walk came to an end, so each directory above the file let it through
      have hpassable : fs.Passable [] (directory ++ [name]) := by
        refine passable_of_advance hspells.named (fun front back hsplit hback => ?_) hadvance
        refine hw.directory_above hback ?_
        rw [List.nil_append, ← hsplit, hnode]
        exact Option.some_ne_none _
      exact ⟨directory, name, bits, rfl, ⟨hspells, haccept, hpassable⟩, hnode, hgrants⟩

end FileSystem
end NotebookTidy
