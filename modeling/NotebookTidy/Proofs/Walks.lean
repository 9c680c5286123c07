import NotebookTidy.Proofs.DiskActions

/-!
# Walks step by step

A path may lead anywhere, through links and upwards again.  A walk that ends is told step by step
(`Walks`), with the links it has left, so that what holds of all walks is an induction on them:
entries that are added do not lead it astray (`Walks.mono`), a walk by more names is a walk by the
first of them and then by the others (`Walks.cut`), and how many links are left does not matter to
where it ends (`Walks.unique`).  `walk_eq_ok_iff` and `resolve_eq_ok_iff` say that these are the
walks of the file system.
-/

namespace NotebookTidy
namespace FileSystem

/-! ## Walks step by step -/

/-- There is a directory at the location, and it lets walks pass. -/
def Passes (fs : FileSystem) (location : Location) : Prop :=
  ∃ bits, fs.node? location = some (.directory bits) ∧ Permission.grants bits .search = true

/-- A name that something in a directory can have. -/
def IsEntry (name : Text) : Prop :=
  name ≠ [] ∧ name ≠ Path.here ∧ name ≠ Path.above ∧ (Utf8.encode name).length ≤ nameLimit

/-- **One step of a walk** that meets no link. -/
inductive Hop (fs : FileSystem) (location : Location) : Text → Location → Prop where
  | rest (directory : ∃ bits, fs.node? location = some (.directory bits)) :
    Hop fs location [] location
  | stay (passes : fs.Passes location) : Hop fs location Path.here location
  | rise (passes : fs.Passes location) : Hop fs location Path.above location.dropLast
  | enter {name : Text} {node : Node} (passes : fs.Passes location) (entry : IsEntry name)
    (found : fs.node? (location ++ [name]) = some node) (no_link : ∀ target, node ≠ .link target) :
    Hop fs location name (location ++ [name])

/-- Where the path of a link in a directory starts. -/
def linkOrigin (directory : Location) (target : Text) : Location :=
  if Path.isAbsolute target then [] else directory

/-- **A walk that ends**: from a location by names, through so many links at most, to a location,
with so many links left. -/
inductive Walks (fs : FileSystem) : Location → List Text → Nat → Location → Nat → Prop where
  | arrived (location : Location) (links : Nat) : Walks fs location [] links location links
  | hop {location next last : Location} {name : Text} {rest : List Text} {links left : Nat}
    (first : fs.Hop location name next) (onward : Walks fs next rest links last left) :
    Walks fs location (name :: rest) links last left
  | follow {location last : Location} {name target : Text} {rest : List Text} {links left : Nat}
    (passes : fs.Passes location) (entry : IsEntry name)
    (found : fs.node? (location ++ [name]) = some (.link target)) (leads : target ≠ [])
    (onward : Walks fs (linkOrigin location target) (Path.steps target ++ rest) links last left) :
    Walks fs location (name :: rest) (links + 1) last left

variable {fs fs' : FileSystem} {location next last : Location} {name : Text}
  {steps rest : List Text} {links left : Nat}

theorem Passes.directory (h : fs.Passes location) :
    ∃ bits, fs.node? location = some (.directory bits) := h.imp fun _ h => h.1

theorem Hop.directory (h : fs.Hop location name next) :
    ∃ bits, fs.node? location = some (.directory bits) := by
  cases h with
  | rest directory => exact directory
  | stay passes => exact passes.directory
  | rise passes => exact passes.directory
  | enter passes => exact passes.directory

/-! ## Walks and the function that walks -/

theorem Hop.advance_eq (h : fs.Hop location name next) (rest : List Text) :
    fs.advance location (name :: rest) = fs.advance next rest := by
  cases h with
  | rest directory =>
    obtain ⟨bits, hnode⟩ := directory
    rw [advance, hnode]
    rfl
  | stay passes =>
    obtain ⟨bits, hnode, hsearch⟩ := passes
    rw [advance, hnode]
    simp [Path.here, hsearch]
  | rise passes =>
    obtain ⟨bits, hnode, hsearch⟩ := passes
    rw [advance, hnode]
    simp [Path.here, Path.above, hsearch]
  | @enter _ node passes entry found no_link =>
    obtain ⟨bits, hnode, hsearch⟩ := passes
    obtain ⟨hempty, hhere, habove, hlimit⟩ := entry
    rw [advance, hnode]
    cases node with
    | link target => exact absurd rfl (no_link target)
    | _ => simp [hempty, hhere, habove, hsearch, Nat.not_lt.mpr hlimit, found]

theorem advance_link {target : Text} (passes : fs.Passes location) (entry : IsEntry name)
    (found : fs.node? (location ++ [name]) = some (.link target)) (rest : List Text) :
    fs.advance location (name :: rest) = .ok (.link location target rest) := by
  obtain ⟨bits, hnode, hsearch⟩ := passes
  obtain ⟨hempty, hhere, habove, hlimit⟩ := entry
  rw [advance, hnode]
  simp [hempty, hhere, habove, hsearch, Nat.not_lt.mpr hlimit, found]

/-- **A walk by names either steps on or meets a link.** -/
theorem of_advance_cons {arrival : Arrival}
    (h : fs.advance location (name :: rest) = .ok arrival) :
    (∃ next, fs.Hop location name next ∧ fs.advance next rest = .ok arrival) ∨
      ∃ target, fs.Passes location ∧ IsEntry name ∧
        fs.node? (location ++ [name]) = some (.link target) ∧
        arrival = .link location target rest := by
  rw [advance] at h
  split at h
  · next bits hnode =>
    split at h
    · next hempty =>
      subst hempty
      exact .inl ⟨location, .rest ⟨bits, hnode⟩, h⟩
    · next hempty =>
      split at h
      · cases h
      · next hsearch =>
        have hpasses : fs.Passes location := ⟨bits, hnode, by simpa using hsearch⟩
        split at h
        · next hhere =>
          subst hhere
          exact .inl ⟨location, .stay hpasses, h⟩
        · next hhere =>
          split at h
          · next habove =>
            subst habove
            exact .inl ⟨location.dropLast, .rise hpasses, h⟩
          · next habove =>
            split at h
            · cases h
            · next hlimit =>
              have hentry : IsEntry name := ⟨hempty, hhere, habove, Nat.not_lt.mp hlimit⟩
              split at h
              · cases h
              · next target hlink =>
                cases h
                exact .inr ⟨target, hpasses, hentry, hlink, rfl⟩
              · next node hlink hfound =>
                exact .inl ⟨_, .enter hpasses hentry hfound fun target heq => hlink target heq, h⟩
  · cases h

theorem walks_of_advance (h : fs.advance location steps = .ok (.arrived last)) (links : Nat) :
    fs.Walks location steps links last links := by
  induction steps generalizing location with
  | nil =>
    cases h
    exact .arrived _ links
  | cons name rest ih =>
    rcases of_advance_cons h with ⟨next, hhop, hrest⟩ | ⟨target, -, -, -, hlink⟩
    · exact .hop hhop (ih hrest)
    · cases hlink

/-- A walk that meets a link goes on where the link leads. -/
theorem walks_of_link {directory : Location} {target : Text}
    (h : fs.advance location steps = .ok (.link directory target rest)) (leads : target ≠ [])
    (onward : fs.Walks (linkOrigin directory target) (Path.steps target ++ rest) links last left) :
    fs.Walks location steps (links + 1) last left := by
  induction steps generalizing location with
  | nil => cases h
  | cons name steps ih =>
    rcases of_advance_cons h with ⟨next, hhop, hrest⟩ | ⟨target, hpasses, hentry, hfound, hlink⟩
    · exact .hop hhop (ih hrest)
    · injection hlink with hdirectory htarget hrest
      subst hdirectory htarget hrest
      exact .follow hpasses hentry hfound leads onward

theorem walk_congr {location' : Location} {steps' : List Text}
    (h : fs.advance location steps = fs.advance location' steps') :
    fs.walk location steps links = fs.walk location' steps' links := by
  cases links <;> rw [walk, walk, h]

/-- **The walks that end** are those that the function takes to their end. -/
theorem walk_eq_ok_iff :
    fs.walk location steps links = .ok (last, left) ↔ fs.Walks location steps links last left := by
  constructor
  · intro h
    induction links generalizing location steps with
    | zero =>
      rw [walk] at h
      split at h
      · cases h
      · next hadvance =>
        cases h
        exact walks_of_advance hadvance 0
      · cases h
    | succ links ih =>
      rw [walk] at h
      split at h
      · cases h
      · next hadvance =>
        cases h
        exact walks_of_advance hadvance _
      · next directory target rest hadvance =>
        split at h
        · cases h
        · next hleads => exact walks_of_link hadvance hleads (ih h)
  · intro h
    induction h with
    | arrived location links => cases links <;> rfl
    | hop first onward ih => rw [walk_congr (first.advance_eq _), ih]
    | follow passes entry found leads onward ih =>
      rw [walk, advance_link passes entry found]
      simp only [leads, if_false]
      exact ih

/-! ## Walks in pieces -/

namespace Walks

/-- A walk that has links to spare. -/
theorem spare (h : fs.Walks location steps links last left) (more : Nat) :
    fs.Walks location steps (links + more) last (left + more) := by
  induction h with
  | arrived location links => exact .arrived location _
  | hop first onward ih => exact .hop first ih
  | @follow _ _ _ _ _ links _ passes entry found leads onward ih =>
    rw [Nat.add_right_comm]
    exact .follow passes entry found leads ih

/-- **How many links there may be does not matter** to where a walk ends. -/
theorem unique {links' left' : Nat} {last' : Location}
    (h : fs.Walks location steps links last left)
    (h' : fs.Walks location steps links' last' left') : last = last' := by
  have hmore := walk_eq_ok_iff.mpr (h.spare links')
  have hmore' := walk_eq_ok_iff.mpr (h'.spare links)
  rw [Nat.add_comm, hmore] at hmore'
  injection hmore' with heq
  exact congrArg Prod.fst heq

theorem trans {between : Location} {spared : Nat}
    (h : fs.Walks location steps links between spared)
    (k : fs.Walks between rest spared last left) :
    fs.Walks location (steps ++ rest) links last left := by
  induction h with
  | arrived => exact k
  | hop first onward ih => exact .hop first (ih k)
  | follow passes entry found leads onward ih =>
    have hrest := ih k
    rw [List.append_assoc] at hrest
    exact .follow passes entry found leads hrest

/-- **A walk by more names, cut in two.** -/
theorem cut (h : fs.Walks location (steps ++ rest) links last left) :
    ∃ between spared, fs.Walks location steps links between spared ∧
      fs.Walks between rest spared last left := by
  generalize hall : steps ++ rest = all at h
  induction h generalizing steps with
  | arrived location links =>
    obtain ⟨rfl, rfl⟩ := List.append_eq_nil_iff.mp hall
    exact ⟨location, links, .arrived _ _, .arrived _ _⟩
  | @hop location next last name others links left first onward ih =>
    rcases steps with - | ⟨step, steps⟩
    · rw [List.nil_append] at hall
      subst hall
      exact ⟨location, links, .arrived _ _, .hop first onward⟩
    · rw [List.cons_append, List.cons.injEq] at hall
      obtain ⟨rfl, rfl⟩ := hall
      obtain ⟨between, spared, hsteps, hrest⟩ := ih rfl
      exact ⟨between, spared, .hop first hsteps, hrest⟩
  | @follow location last name target others links left passes entry found leads onward ih =>
    rcases steps with - | ⟨step, steps⟩
    · rw [List.nil_append] at hall
      subst hall
      exact ⟨location, _, .arrived _ _, .follow passes entry found leads onward⟩
    · rw [List.cons_append, List.cons.injEq] at hall
      obtain ⟨rfl, rfl⟩ := hall
      obtain ⟨between, spared, hsteps, hrest⟩ := ih (List.append_assoc _ _ _)
      exact ⟨between, spared, .follow passes entry found leads hsteps, hrest⟩

/-- Nothing leads on from what is no directory. -/
theorem of_not_directory (h : fs.Walks location steps links last left)
    (hnot : ∀ bits, fs.node? location ≠ some (.directory bits)) : steps = [] ∧ last = location := by
  have habsurd (hdirectory : ∃ bits, fs.node? location = some (.directory bits)) : False :=
    hdirectory.elim hnot
  cases h with
  | arrived => exact ⟨rfl, rfl⟩
  | hop first onward => exact (habsurd first.directory).elim
  | follow passes => exact (habsurd passes.directory).elim

/-- A walk may be told to stay in a directory that lets it pass. -/
theorem of_here (h : fs.Walks location [Path.here] links last left) :
    fs.Passes location ∧ last = location := by
  generalize hname : Path.here = name at h
  cases h with
  | hop first onward =>
    cases onward
    cases first with
    | rest directory => cases hname
    | stay passes => exact ⟨passes, rfl⟩
    | rise passes => cases hname
    | enter passes entry => exact absurd hname.symm entry.2.1
  | follow passes entry => exact absurd hname.symm entry.2.1

end Walks

/-! ## Walks in another file system -/

/-- What is there in a file system is there in another one too. -/
def Keeps (fs fs' : FileSystem) : Prop :=
  fs'.here = fs.here ∧ ∀ location node, fs.node? location = some node →
    fs'.node? location = some node

theorem Keeps.passes (h : fs.Keeps fs') (hpasses : fs.Passes location) : fs'.Passes location := by
  obtain ⟨bits, hnode, hsearch⟩ := hpasses
  exact ⟨bits, h.2 _ _ hnode, hsearch⟩

/-- **Entries that are added lead no walk astray.** -/
theorem Walks.mono (hkeeps : fs.Keeps fs') (h : fs.Walks location steps links last left) :
    fs'.Walks location steps links last left := by
  induction h with
  | arrived location links => exact .arrived location links
  | hop first onward ih =>
    refine .hop ?_ ih
    cases first with
    | rest directory => exact .rest (directory.imp fun _ h => hkeeps.2 _ _ h)
    | stay passes => exact .stay (hkeeps.passes passes)
    | rise passes => exact .rise (hkeeps.passes passes)
    | enter passes entry found no_link =>
      exact .enter (hkeeps.passes passes) entry (hkeeps.2 _ _ found) no_link
  | follow passes entry found leads onward ih =>
    exact .follow (hkeeps.passes passes) entry (hkeeps.2 _ _ found) leads ih

/-! ## The walks of paths -/

section
variable {path : Text}

theorem resolve_eq_ok_iff :
    fs.resolve path = .ok location ↔ accept path = .ok () ∧
      ∃ left, fs.Walks (fs.origin path) (Path.steps path) linkLimit location left := by
  rw [resolve, arrive]
  constructor
  · intro h
    rcases haccept : accept path with fault | ⟨⟩
    · rw [haccept] at h
      cases h
    · rw [haccept] at h
      rcases hwalk : fs.walk (fs.origin path) (Path.steps path) linkLimit with
        fault | ⟨arrived, left⟩
      · simp [bind, Except.bind, hwalk, Except.map] at h
      · simp only [bind, Except.bind, hwalk, Except.map, Except.ok.injEq] at h
        subst h
        exact ⟨rfl, left, walk_eq_ok_iff.mp hwalk⟩
  · rintro ⟨haccept, left, hwalks⟩
    simp only [haccept, bind, Except.bind, walk_eq_ok_iff.mpr hwalks]
    rfl

theorem origin_congr (h : fs'.here = fs.here) : fs'.origin path = fs.origin path := by
  rw [origin, h, origin]

theorem resolve_mono (hkeeps : fs.Keeps fs') (h : fs.resolve path = .ok location) :
    fs'.resolve path = .ok location := by
  obtain ⟨haccept, left, hwalks⟩ := resolve_eq_ok_iff.mp h
  refine resolve_eq_ok_iff.mpr ⟨haccept, left, ?_⟩
  rw [origin_congr hkeeps.1]
  exact hwalks.mono hkeeps

/-- **What a path leads to** is what is where it leads. -/
theorem follow_eq_ok_iff {node : Node} :
    fs.follow path = .ok node ↔
      ∃ place, fs.resolve path = .ok place ∧ fs.node? place = some node := by
  rw [follow]
  rcases hresolve : fs.resolve path with fault | place
  · simp [bind, Except.bind]
  · cases hnode : fs.node? place with
    | none => simp [bind, Except.bind, hnode]
    | some found => simp [bind, Except.bind, hnode]

/-- What is read at the end of a path depends on what is there. -/
theorem read_congr (h : fs.resolve path = .ok location) (h' : fs'.resolve path = .ok location)
    (hnode : fs'.node? location = fs.node? location) : fs'.read path = fs.read path := by
  simp only [read, follow, h, h', bind, Except.bind, hnode]

end
end FileSystem
end NotebookTidy
