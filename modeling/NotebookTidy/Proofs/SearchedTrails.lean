import Mathlib.Data.List.Basic
import NotebookTidy.Proofs.CanonicalPaths
import NotebookTidy.Proofs.FoundNotebooks
import NotebookTidy.Proofs.WalkFrames

/-!
# What a search goes through

A search goes down level by level, and stops after so many levels as there was room for names at the
start.  Every name takes up room, so by then it has gone through all there is: what it goes through
is exactly what `IsBelow` says (`mem_below`).

`IsBelow` still speaks of trails, with what is left of the limits on paths.  What is meant to be
below a directory knows of no limits (`IsInside`, `HasNotebook`).  A search **explores** a directory
if nothing bars its way and the limits hide nothing from it (`Explores`); then it finds the
notebooks that are below the directory, no more and no less (`Explores.notebooksIn`).
-/

namespace NotebookTidy

/-- A text that is not empty has octets. -/
theorem Utf8.length_encode_pos {t : Text} (h : t ≠ []) : 0 < (encode t).length := by
  obtain ⟨c, rest, rfl⟩ := List.exists_cons_of_ne_nil h
  have hchar : 0 < (String.utf8EncodeChar c).length := by
    rw [String.length_utf8EncodeChar]
    exact Char.utf8Size_pos c
  rw [encode, List.flatMap_cons, List.length_append]
  omega

namespace FileSystem

/-- **Every name in the file system is a name** that a walk can go by. -/
def Named (fs : FileSystem) : Prop := ∀ entry ∈ fs.entries, ∀ name ∈ entry.1, IsName name

instance (name : Text) : Decidable (IsName name) :=
  inferInstanceAs (Decidable (_ ∧ _ ∧ _ ∧ _ ∧ _))

instance (fs : FileSystem) : Decidable fs.Named :=
  inferInstanceAs (Decidable (∀ _ ∈ _, ∀ _ ∈ _, _))

variable {fs : FileSystem} {directory location : Location} {name : Text} {node : Node}

theorem IsName.isEntry (h : IsName name) : IsEntry name := ⟨h.1, h.2.1, h.2.2.1, h.2.2.2.2⟩

theorem mem_children :
    (name, node) ∈ fs.children directory ↔ (directory ++ [name], node) ∈ fs.entries := by
  rw [children, List.mem_filterMap]
  constructor
  · rintro ⟨⟨location, found⟩, hentry, h⟩
    dsimp only at h
    split at h
    · next last hlast =>
      split at h
      · next heq =>
        cases h
        rwa [heq] at hentry
      · cases h
    · cases h
  · intro h
    refine ⟨_, h, ?_⟩
    simp only [List.getLast?_concat, if_true]

theorem Named.isName (h : fs.Named) (hchild : (name, node) ∈ fs.children directory) :
    IsName name :=
  h _ (mem_children.mp hchild) name (List.mem_append_right _ List.mem_cons_self)

/-- What is at a location below the root is one of the entries. -/
theorem mem_entries (hlocation : location ≠ []) (h : fs.node? location = some node) :
    (location, node) ∈ fs.entries := by
  rw [FileSystem.node?, if_neg hlocation] at h
  exact mem_of_nodeIn? h

theorem Named.of_node? (h : fs.Named) (hnode : fs.node? location = some node) :
    ∀ name ∈ location, IsName name := by
  by_cases hroot : location = []
  · subst hroot
    exact fun name hname => absurd hname List.not_mem_nil
  · exact h _ (mem_entries hroot hnode)

/-- A walk never gets links back. -/
theorem Walks.left_le {steps : List Text} {last : Location} {links left : Nat}
    (h : fs.Walks location steps links last left) : left ≤ links := by
  induction h with
  | arrived => exact Nat.le_refl _
  | hop first onward ih => exact ih
  | follow passes entry found leads onward ih => exact Nat.le_succ_of_le ih

/-- **A name in a directory leads to a location**, through links if need be. -/
def EntryLeads (fs : FileSystem) (directory : Location) (name : Text) (location : Location) : Prop :=
  IsEntry name ∧ ∃ left, fs.Walks directory [name] linkLimit location left

/-- A name leads to what has it, unless that is a link. -/
theorem entryLeads_of_node (passes : fs.Passes directory) (entry : IsEntry name)
    (found : fs.node? (directory ++ [name]) = some node) (no_link : ∀ target, node ≠ .link target) :
    fs.EntryLeads directory name (directory ++ [name]) :=
  ⟨entry, linkLimit, .hop (.enter passes entry found no_link) (.arrived _ _)⟩

/-- What a name leads to is behind one of the names in the directory. -/
theorem EntryLeads.exists_child (h : fs.EntryLeads directory name location) :
    ∃ node, (name, node) ∈ fs.children directory := by
  obtain ⟨hentry, left, hwalks⟩ := h
  obtain ⟨node, hnode⟩ := Option.ne_none_iff_exists'.mp (hwalks.of_entry hentry).2.2
  exact ⟨node, mem_children.mpr (mem_entries (by simp) hnode)⟩

end FileSystem

namespace Discovery

variable {fs : FileSystem} {trail next start : Trail} {name : Text} {location : Location}

/-! ## One name longer -/

/-- **When a trail is one name longer** than another. -/
theorem next_eq_ok_iff :
    trail.next fs name = .ok next ↔
      (Utf8.encode name).length ≤ trail.room ∧
        fs.Walks trail.location [name] trail.links next.location next.links ∧
        next.room = trail.room - (Utf8.encode name).length - 1 := by
  rw [Trail.next]
  constructor
  · intro h
    split at h
    · next hroom =>
      rcases hwalk : fs.walk trail.location [name] trail.links with fault | ⟨last, left⟩
      · rw [hwalk] at h
        cases h
      · rw [hwalk] at h
        cases h
        exact ⟨hroom, FileSystem.walk_eq_ok_iff.mp hwalk, rfl⟩
    · cases h
  · rintro ⟨hroom, hwalks, hleft⟩
    simp only [hroom, if_true, FileSystem.walk_eq_ok_iff.mpr hwalks, Except.map, ← hleft]

theorem mem_subdirectories :
    next ∈ subdirectories fs trail ↔
      ∃ name node, (name, node) ∈ fs.children trail.location ∧ trail.next fs name = .ok next ∧
        ∃ bits, fs.node? next.location = some (.directory bits) := by
  rw [subdirectories, List.mem_filterMap]
  constructor
  · rintro ⟨⟨name, node⟩, hchild, h⟩
    change subdirectory? fs trail name = some next at h
    rw [subdirectory?] at h
    split at h
    · next longer hnext =>
      split at h
      · next bits hnode =>
        cases h
        exact ⟨name, node, hchild, hnext, bits, hnode⟩
      · cases h
    · cases h
  · rintro ⟨name, node, hchild, hnext, bits, hnode⟩
    refine ⟨_, hchild, ?_⟩
    change subdirectory? fs trail name = some next
    simp only [subdirectory?, hnext, hnode]

theorem mem_notebooksAt :
    location ∈ notebooksAt fs trail ↔
      ∃ name node next, (name, node) ∈ fs.children trail.location ∧ notebookSuffix <:+ name ∧
        trail.next fs name = .ok next ∧ next.location = location ∧ fs.IsFile location := by
  rw [notebooksAt, List.mem_filterMap]
  constructor
  · rintro ⟨⟨name, node⟩, hchild, h⟩
    dsimp only at h
    split at h
    · next hsuffix =>
      split at h
      · next longer hnext =>
        split at h
        · next content bits hnode =>
          cases h
          exact ⟨name, node, longer, hchild, List.isSuffixOf_iff_suffix.mp hsuffix, hnext, rfl,
            content, bits, hnode⟩
        · cases h
      · cases h
    · cases h
  · rintro ⟨name, node, next, hchild, hsuffix, hnext, rfl, content, bits, hnode⟩
    refine ⟨_, hchild, ?_⟩
    have hends : Text.endsWith notebookSuffix name = true := List.isSuffixOf_iff_suffix.mpr hsuffix
    simp only [hends, if_true, hnext, hnode]

/-! ## All levels -/

theorem mem_distinct {trails : List Trail} : trail ∈ distinct trails ↔ trail ∈ trails := by
  induction trails with
  | nil => rfl
  | cons first rest ih =>
    rw [distinct]
    split
    · next hmem =>
      rw [ih, List.mem_cons]
      exact ⟨Or.inr, fun h => h.elim (fun heq => heq ▸ hmem) id⟩
    · rw [List.mem_cons, ih, List.mem_cons]

/-- What comes of one level down is below what there was. -/
theorem isBelow_of_mem_levels {names : Nat} {trails : List Trail}
    (htrails : ∀ trail ∈ trails, IsBelow fs start trail)
    (h : trail ∈ levels fs trails names) : IsBelow fs start trail := by
  induction names generalizing trails with
  | zero => exact htrails trail h
  | succ names ih =>
    rw [levels] at h
    split at h
    · cases h
    · rcases List.mem_append.mp h with h | h
      · exact htrails trail h
      · refine ih (fun inner hinner => ?_) h
        obtain ⟨above, habove, hstep⟩ := List.mem_flatMap.mp (mem_distinct.mp hinner)
        exact (htrails above habove).entry hstep

/-- More trails to start from lead to no fewer. -/
theorem levels_mono {names : Nat} {trails more : List Trail} (hmore : trails ⊆ more)
    (h : trail ∈ levels fs trails names) : trail ∈ levels fs more names := by
  induction names generalizing trails more with
  | zero => exact hmore h
  | succ names ih =>
    rw [levels] at h ⊢
    split at h
    · cases h
    · next hne =>
      have hne' : more ≠ [] := fun hnil => hne (List.subset_nil.mp (hnil ▸ hmore))
      rw [if_neg hne']
      rcases List.mem_append.mp h with h | h
      · exact List.mem_append_left _ (hmore h)
      · refine List.mem_append_right _ (ih (fun inner hinner => ?_) h)
        obtain ⟨above, habove, hstep⟩ := List.mem_flatMap.mp (mem_distinct.mp hinner)
        exact mem_distinct.mpr (List.mem_flatMap.mpr ⟨above, hmore habove, hstep⟩)

theorem self_mem_levels (fs : FileSystem) (trail : Trail) (names : Nat) :
    trail ∈ levels fs [trail] names := by
  cases names with
  | zero => exact List.mem_cons_self
  | succ names =>
    rw [levels, if_neg (List.cons_ne_nil _ _)]
    exact List.mem_append_left _ List.mem_cons_self

theorem levels_of_step {names : Nat} (hstep : next ∈ subdirectories fs start)
    (h : trail ∈ levels fs [next] names) : trail ∈ levels fs [start] (names + 1) := by
  rw [levels, if_neg (List.cons_ne_nil _ _)]
  refine List.mem_append_right _ (levels_mono (fun inner hinner => ?_) h)
  rw [List.mem_singleton.mp hinner]
  exact mem_distinct.mpr (List.mem_flatMap.mpr ⟨start, List.mem_cons_self, hstep⟩)

/-- A trail below another one is that one, or is below one that is a name longer. -/
theorem IsBelow.cases_head (h : IsBelow fs start trail) :
    trail = start ∨ ∃ next ∈ subdirectories fs start, IsBelow fs next trail := by
  induction h with
  | self => exact Or.inl rfl
  | @entry inner last hinner step ih =>
    rcases ih with rfl | ⟨next, hnext, hbelow⟩
    · exact Or.inr ⟨last, step, .self⟩
    · exact Or.inr ⟨next, hnext, hbelow.entry step⟩

section
variable (hnamed : fs.Named)
include hnamed

/-- A name takes up room. -/
theorem room_lt (hstep : next ∈ subdirectories fs trail) : next.room < trail.room := by
  obtain ⟨name, node, hchild, hnext, -⟩ := mem_subdirectories.mp hstep
  obtain ⟨hroom, -, hleft⟩ := next_eq_ok_iff.mp hnext
  have hsize := Utf8.length_encode_pos (hnamed.isName hchild).1
  omega

/-- **Levels enough reach everything**: as many as there is room for names. -/
theorem mem_levels_of_isBelow {names : Nat} (hroom : start.room ≤ names)
    (h : IsBelow fs start trail) : trail ∈ levels fs [start] names := by
  induction names generalizing start with
  | zero =>
    rcases h.cases_head with rfl | ⟨next, hstep, -⟩
    · exact List.mem_cons_self
    · have hlt := room_lt hnamed hstep
      omega
  | succ names ih =>
    rcases h.cases_head with rfl | ⟨next, hstep, hbelow⟩
    · exact self_mem_levels fs trail _
    · have hlt := room_lt hnamed hstep
      exact levels_of_step hstep (ih (by omega) hbelow)

/-- **A search goes through what is below its start**, and through nothing else. -/
theorem mem_below : trail ∈ below fs start ↔ IsBelow fs start trail := by
  constructor
  · intro h
    refine isBelow_of_mem_levels (fun other hother => ?_) h
    rw [List.mem_singleton.mp hother]
    exact .self
  · intro h
    exact mem_levels_of_isBelow hnamed (Nat.le_refl _) h

end

/-! ## What is below a directory -/

/-- **What is inside a directory**: the directory itself, and every directory that a name in one
inside it leads to, however long the way. -/
inductive IsInside (fs : FileSystem) (directory : Location) : Location → Prop where
  | self : IsInside fs directory directory
  | entry {inner next : Location} {name : Text} (h : IsInside fs directory inner)
    (leads : fs.EntryLeads inner name next)
    (is_directory : ∃ bits, fs.node? next = some (.directory bits)) : IsInside fs directory next

/-- **A notebook below a directory**: a file to which a name with the end of notebooks leads. -/
def HasNotebook (fs : FileSystem) (directory location : Location) : Prop :=
  ∃ inner name, IsInside fs directory inner ∧ notebookSuffix <:+ name ∧
    fs.EntryLeads inner name location ∧ fs.IsFile location

/-- **A search explores what is below a target**, from the trail that the target opens: it is barred
nowhere, and the limits on paths hide nothing from it.  Whatever is inside the directory, one of its
trails leads there and can still be made longer by every name that leads anywhere. -/
structure Explores (fs : FileSystem) (target : Text) (start : Trail) : Prop where
  /-- The target opens the trail. -/
  opens : opening? fs target = some start
  /-- Every directory on the way can be read, and those in it entered. -/
  unbarred : ∀ trail, IsBelow fs start trail → isBlocked fs trail = false
  /-- The limits on paths hide nothing. -/
  exhaustive : ∀ inner, IsInside fs start.location inner → ∃ trail, IsBelow fs start trail ∧
    trail.location = inner ∧ ∀ name location, fs.EntryLeads inner name location →
      ∃ next, trail.next fs name = .ok next

/-- **A search never meets an obstacle or a limit**: wherever it comes, every name that leads
anywhere makes its trail longer. -/
def IsAmple (fs : FileSystem) (start : Trail) : Prop :=
  ∀ trail ∈ below fs start, isBlocked fs trail = false ∧
    ∀ child ∈ fs.children trail.location,
      (fs.walk trail.location [child.1] FileSystem.linkLimit).isOk = true →
        (trail.next fs child.1).isOk = true

instance (fs : FileSystem) (start : Trail) : Decidable (IsAmple fs start) :=
  inferInstanceAs (Decidable (∀ _ ∈ _, _ ∧ ∀ _ ∈ _, _ → _))

/-- Where a trail leads on, its location leads. -/
theorem entryLeads_of_next (hlinks : trail.links ≤ FileSystem.linkLimit)
    (hentry : FileSystem.IsEntry name) (h : trail.next fs name = .ok next) :
    fs.EntryLeads trail.location name next.location := by
  obtain ⟨-, hwalks, -⟩ := next_eq_ok_iff.mp h
  obtain ⟨more, hmore⟩ := Nat.exists_eq_add_of_le hlinks
  refine ⟨hentry, next.links + more, ?_⟩
  rw [hmore]
  exact hwalks.spare more

/-- Where a location leads, a trail leads on, if it leads on at all. -/
theorem location_of_next (hleads : fs.EntryLeads trail.location name location)
    (h : trail.next fs name = .ok next) : next.location = location := by
  obtain ⟨-, hwalks, -⟩ := next_eq_ok_iff.mp h
  obtain ⟨-, left, hleads⟩ := hleads
  exact hwalks.unique hleads

theorem links_le (h : IsBelow fs start trail) : trail.links ≤ start.links := by
  induction h with
  | self => exact Nat.le_refl _
  | entry _ step ih =>
    obtain ⟨name, node, -, hnext, -⟩ := mem_subdirectories.mp step
    exact Nat.le_trans (next_eq_ok_iff.mp hnext).2.1.left_le ih

/-- A trail that a target opens is where the target leads. -/
theorem of_opening? {target : Text} (h : opening? fs target = some start) :
    fs.resolve target = .ok start.location ∧ start.links ≤ FileSystem.linkLimit := by
  rw [opening?] at h
  split at h
  · next last links lead harrive hlead =>
    cases h
    refine ⟨by rw [FileSystem.resolve, harrive]; rfl, ?_⟩
    obtain ⟨-, -, hwalk⟩ := FileSystem.ok_of_bind harrive
    exact (FileSystem.walk_eq_ok_iff.mp hwalk).left_le
  · cases h

namespace Explores
variable {target : Text}

section
variable (hnamed : fs.Named) (h : Explores fs target start)
include hnamed h

/-- A trail below the start is inside its directory. -/
theorem isInside (hbelow : IsBelow fs start trail) :
    IsInside fs start.location trail.location := by
  induction hbelow with
  | self => exact .self
  | @entry inner next hinner step ih =>
    obtain ⟨name, node, hchild, hnext, hdirectory⟩ := mem_subdirectories.mp step
    have hlinks := Nat.le_trans (links_le hinner) (of_opening? h.opens).2
    exact ih.entry (entryLeads_of_next hlinks (hnamed.isName hchild).isEntry hnext) hdirectory

/-- **The notebooks at the trails below the start are those below its directory.** -/
theorem mem_notebooks :
    location ∈ (below fs start).flatMap (notebooksAt fs) ↔
      HasNotebook fs start.location location := by
  rw [List.mem_flatMap]
  constructor
  · rintro ⟨trail, htrail, hmem⟩
    have hbelow := (mem_below hnamed).mp htrail
    obtain ⟨name, node, next, hchild, hsuffix, hnext, rfl, hfile⟩ := mem_notebooksAt.mp hmem
    have hlinks := Nat.le_trans (links_le hbelow) (of_opening? h.opens).2
    exact ⟨_, name, h.isInside hnamed hbelow, hsuffix,
      entryLeads_of_next hlinks (hnamed.isName hchild).isEntry hnext, hfile⟩
  · rintro ⟨inner, name, hinside, hsuffix, hleads, hfile⟩
    obtain ⟨trail, hbelow, rfl, hlonger⟩ := h.exhaustive inner hinside
    obtain ⟨next, hnext⟩ := hlonger name location hleads
    obtain ⟨node, hchild⟩ := hleads.exists_child
    exact ⟨trail, (mem_below hnamed).mpr hbelow, mem_notebooksAt.mpr
      ⟨name, node, next, hchild, hsuffix, hnext, location_of_next hleads hnext, hfile⟩⟩

/-- **A search that explores a directory succeeds.** -/
theorem notebooksIn_eq :
    notebooksIn fs target = .ok ((below fs start).flatMap (notebooksAt fs)) := by
  have hclear : isObstructed fs start = false := by
    rw [isObstructed, List.any_eq_false]
    intro trail htrail
    rw [h.unbarred trail ((mem_below hnamed).mp htrail)]
    exact Bool.false_ne_true
  simp only [notebooksIn, h.opens, firstObstacle?, hclear, Bool.false_eq_true, if_false]

end

/-- **A search that never meets the limits** on paths hides nothing, if nothing bars it. -/
theorem of_ample (hnamed : fs.Named) (hopens : opening? fs target = some start)
    (hample : IsAmple fs start) : Explores fs target start := by
  have hlonger {trail : Trail} (hbelow : IsBelow fs start trail) {name : Text}
      {location : Location} (hleads : fs.EntryLeads trail.location name location) :
      ∃ next, trail.next fs name = .ok next := by
    obtain ⟨node, hchild⟩ := hleads.exists_child
    obtain ⟨-, left, hwalks⟩ := hleads
    have hok := (hample trail ((mem_below hnamed).mpr hbelow)).2 _ hchild
      (by rw [FileSystem.walk_eq_ok_iff.mpr hwalks]; rfl)
    rcases hnext : trail.next fs name with fault | next
    · rw [hnext] at hok
      cases hok
    · exact ⟨next, rfl⟩
  refine ⟨hopens, fun trail hbelow => (hample trail ((mem_below hnamed).mpr hbelow)).1, ?_⟩
  intro inner hinside
  induction hinside with
  | self => exact ⟨start, .self, rfl, fun name location hleads => hlonger .self hleads⟩
  | @entry inner next name hinner leads is_directory ih =>
    obtain ⟨trail, hbelow, rfl, hlonger'⟩ := ih
    obtain ⟨longer, hnext⟩ := hlonger' name next leads
    obtain ⟨node, hchild⟩ := leads.exists_child
    have hlocation := location_of_next leads hnext
    have hstep : IsBelow fs start longer :=
      hbelow.entry (mem_subdirectories.mpr ⟨name, node, hchild, hnext, hlocation ▸ is_directory⟩)
    refine ⟨longer, hstep, hlocation, fun name location hleads => ?_⟩
    rw [← hlocation] at hleads
    exact hlonger hstep hleads

end Explores

end Discovery
end NotebookTidy
