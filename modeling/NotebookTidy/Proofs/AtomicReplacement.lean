import NotebookTidy.Proofs.CellTasks
import NotebookTidy.Proofs.FilesApart
import NotebookTidy.Proofs.NamedEntries

/-!
# A replacement is all or nothing

A file is replaced in six actions, and each may fail, for reasons that the file system shows and
for others.  Until the last one has taken place there is a temporary file more, where nothing was,
and nothing else is different; so once it is removed all is as it was, down to the order of entries
(`erase_put`).  The last one puts it in the place that the path names
(`replaceFile_all_or_nothing`).

One failure does not end a replacement, that of the look-up of permission bits: the temporary file
keeps its own bits then.  So what a replacement leaves depends on how many actions failed for no
reason in the file system, and `Task.Ends` tells of that together with the disk: a judgement on all
runs of a task, with one rule for each kind of node and one for composition.

The path leads to that place from then on, unless a link was there by which the path itself came to
its directory.
-/

namespace NotebookTidy

namespace FileSystem
variable {fs fs' : FileSystem} {place temporary location : Location} {path : Text}
  {content old : Octets} {bits : Nat}

/-! ## Entries that are put and erased -/

theorem putIn_putIn (place : Location) (node node' : Node) (entries : List (Location × Node)) :
    putIn place node' (putIn place node entries) = putIn place node' entries := by
  induction entries with
  | nil => simp [putIn]
  | cons entry rest ih =>
    obtain ⟨l, n⟩ := entry
    by_cases hl : l = place
    · simp [putIn, hl]
    · simp [putIn, hl, ih]

/-- An entry that is put where another one was has been put there alone. -/
theorem put_put (fs : FileSystem) (place : Location) (node node' : Node) :
    (fs.put place node).put place node' = fs.put place node' :=
  congrArg (FileSystem.mk · fs.here) (putIn_putIn place node node' fs.entries)

theorem filter_putIn {entries : List (Location × Node)} (hfree : nodeIn? place entries = none)
    (node : Node) : (putIn place node entries).filter (fun entry => entry.1 ≠ place) = entries := by
  induction entries with
  | nil => simp [putIn]
  | cons entry rest ih =>
    obtain ⟨l, n⟩ := entry
    by_cases hl : l = place
    · simp [nodeIn?, hl] at hfree
    · rw [nodeIn?, if_neg hl] at hfree
      rw [putIn, if_neg hl, List.filter_cons_of_pos (by simpa using hl), ih hfree]

/-- **An entry that is put where nothing was and erased again** has left nothing behind. -/
theorem erase_put (hplace : place ≠ []) (hfree : fs.node? place = none) (node : Node) :
    (fs.put place node).erase place = fs := by
  rw [node?, if_neg hplace] at hfree
  exact congrArg (FileSystem.mk · fs.here) (filter_putIn hfree node)

/-! ## What is done with a temporary file -/

/-- **The bits of a file that replaces what a path names**: those of what the path led to, if it led
anywhere. -/
def adoptedBits (fs : FileSystem) (path : Text) : Nat :=
  (fs.bits path).toOption.getD Permission.ofTemporary

theorem adoptedBits_of_ok (h : fs.bits path = .ok bits) : fs.adoptedBits path = bits := by
  rw [adoptedBits, h]
  rfl

theorem adoptedBits_of_error {fault : IoFault} (h : fs.bits path = .error fault) :
    fs.adoptedBits path = Permission.ofTemporary := by
  rw [adoptedBits, h]
  rfl

section
variable (hne : temporary ≠ [])
include hne

theorem node?_put_self (fs : FileSystem) (node : Node) :
    (fs.put temporary node).node? temporary = some node := by
  rw [node?_put hne, if_pos rfl]

/-- A file that is there is written in its place. -/
theorem eq_of_write
    (h : (fs.put temporary (.file old bits)).perform (.write temporary content) =
      .ok (fs', location)) : fs' = fs.put temporary (.file content bits) := by
  obtain ⟨old', bits', hnode, rfl⟩ := of_write h
  rw [node?_put_self hne] at hnode
  cases hnode
  rw [put_put]

variable (hfree : fs.node? temporary = none)
include hfree

/-- A new temporary file does not change which bits there are to adopt. -/
theorem adoptedBits_put (content : Octets) (path : Text) :
    (fs.put temporary (.file content Permission.ofTemporary)).adoptedBits path =
      fs.adoptedBits path :=
  bits_put hne hfree content Permission.ofTemporary path

/-- **A temporary file becomes what a path names**, where no directory is. -/
theorem eq_of_rename
    (h : (fs.put temporary (.file content bits)).perform (.rename temporary path) =
      .ok (fs', location)) :
    fs.locate path = .ok location ∧ fs' = fs.put location (.file content bits) ∧
      ∀ bits, fs.node? location ≠ some (.directory bits) := by
  have hself := node?_put_self hne fs (.file content bits)
  have hput := sameBut_put hne fs (.file content bits)
  have hend : (fs.put temporary (.file content bits)).DeadEnd temporary :=
    IsFile.deadEnd ⟨content, bits, hself⟩
  obtain ⟨place, hlocate, h⟩ := ok_of_bind h
  rw [hself] at h
  obtain ⟨-, -, h⟩ := ok_of_bind h
  obtain ⟨-, -, h⟩ := ok_of_bind h
  split at h
  · cases h
  · next hplace =>
    cases h
    refine ⟨locate_of_deadEnd hput.symm hend hlocate, by rw [erase_put hne hfree], ?_⟩
    intro bits' hdirectory
    have hother : location ≠ temporary := by
      rintro rfl
      rw [hfree] at hdirectory
      cases hdirectory
    exact hplace bits' ((hput.frame location hother).trans hdirectory)

end

end FileSystem

/-! ## What a task leaves -/

section
variable {formatter : Formatter} {w w' : World}

/-- Where nothing happens but interruptions, the disk stays as it is, and nothing fails. -/
theorem World.Follows.same_of_nil (h : Follows formatter w [] w') :
    w'.disk = w.disk ∧ w'.mishaps = w.mishaps := by
  generalize hall : [] = all at h
  induction h with
  | refl => exact ⟨rfl, rfl⟩
  | gives first rest => cases hall
  | interrupt rest ih => exact ih hall

/-- What comes before the first of some events leaves the disk alone, and nothing fails. -/
theorem World.Follows.of_cons {e : Event} {es : List Event}
    (h : Follows formatter w (e :: es) w') :
    ∃ v u, v.disk = w.disk ∧ v.mishaps = w.mishaps ∧ Gives formatter v e u ∧
      Follows formatter u es w' := by
  generalize hall : e :: es = all at h
  induction h with
  | refl => cases hall
  | @gives w v u _ _ first rest =>
    cases hall
    exact ⟨w, v, rfl, rfl, first, rest⟩
  | interrupt rest ih =>
    obtain ⟨v, u, hdisk, hmishaps, hgives, hrest⟩ := ih hall
    exact ⟨v, u, hdisk, hmishaps, hgives, hrest⟩

end

namespace Task
variable {α β : Type}

/-- **A judgement on all runs of a task that end**: if it begins with this disk, and so many
actions have failed for no reason in the file system, then it leaves a disk and a number of such
failures that fit its result. -/
def Ends (formatter : Formatter) (fs : FileSystem) (mishaps : Nat) (t : Task α)
    (fits : α → FileSystem → Nat → Prop) : Prop :=
  ∀ es a w w', Trace t es (.done a) → World.Follows formatter w es w' → w.disk = fs →
    w.mishaps = mishaps → fits a w'.disk w'.mishaps

namespace Ends
variable {formatter : Formatter} {fs : FileSystem} {mishaps : Nat}
  {fits : α → FileSystem → Nat → Prop}

theorem done {a : α} (h : fits a fs mishaps) : Ends formatter fs mishaps (.done a) fits := by
  rintro es b w w' htrace hfollows rfl rfl
  obtain ⟨rfl, hb⟩ := htrace.of_done
  cases hb
  obtain ⟨hdisk, hmishaps⟩ := hfollows.same_of_nil
  rwa [hdisk, hmishaps]

/-- An action takes place, or fails as the file system has it, or fails for no reason in it. -/
theorem disk {action : DiskAction} {next : Except IoFault action.Answer → Task α}
    (hok : ∀ fs' answer, fs.perform action = .ok (fs', answer) →
      Ends formatter fs' mishaps (next (.ok answer)) fits)
    (herror : ∀ fault, fs.perform action = .error fault →
      Ends formatter fs mishaps (next (.error fault)) fits)
    (hstruck : mayFail action = true → ∀ fault,
      Ends formatter fs (mishaps + 1) (next (.error fault)) fits) :
    Ends formatter fs mishaps (.disk action next) fits := by
  intro es a w w' htrace hfollows hdisk hmishaps
  obtain ⟨answer, es, rfl, honward⟩ := htrace.of_disk
  obtain ⟨v, u, hdisk', hmishaps', hgives, hrest⟩ := hfollows.of_cons
  obtain rfl : v.disk = fs := hdisk'.trans hdisk
  obtain rfl : v.mishaps = mishaps := hmishaps'.trans hmishaps
  rcases hgives.of_changed with ⟨done, rfl, hperform, hsame⟩ |
    ⟨fault, rfl, hafter, ⟨hperform, hsame⟩ | ⟨hmay, hmore⟩⟩
  · exact hok _ done hperform es a u w' honward hrest rfl hsame
  · exact herror fault hperform es a u w' honward hrest hafter hsame
  · exact hstruck hmay fault es a u w' honward hrest hafter hmore

theorem bind {t : Task β} {f : β → Task α} {fits' : β → FileSystem → Nat → Prop}
    (ht : Ends formatter fs mishaps t fits')
    (hf : ∀ b fs' mishaps', fits' b fs' mishaps' → Ends formatter fs' mishaps' (f b) fits) :
    Ends formatter fs mishaps (t.bind f) fits := by
  intro es a w w' htrace hfollows hdisk hmishaps
  obtain ⟨before, after, b, rfl, hfirst, hsecond⟩ := htrace.bind_ended
  obtain ⟨v, hbefore, hafter⟩ := hfollows.cut
  have hfits := ht before b w v hfirst hbefore hdisk hmishaps
  exact hf b _ _ hfits after a v w' hsecond hafter rfl rfl

end Ends

/-- Actions one after the other: if the first takes place the others follow, and if it fails nothing
more happens. -/
theorem Ends.changeAll_cons {formatter : Formatter} {fs : FileSystem} {mishaps : Nat}
    {fits : Except IoFault Unit → FileSystem → Nat → Prop} {action : DiskAction}
    {rest : List DiskAction}
    (hok : ∀ fs' answer, fs.perform action = .ok (fs', answer) →
      Ends formatter fs' mishaps (changeAll rest) fits)
    (hfailed : ∀ fault mishaps', fits (.error fault) fs mishaps') :
    Ends formatter fs mishaps (changeAll (action :: rest)) fits :=
  .disk hok (fun fault _ => .done (hfailed fault _)) fun _ fault => .done (hfailed fault _)

end Task

/-! ## What a replacement leaves -/

namespace FileSystem

/-- **A file is in the place that a path names**, with a content and permission bits, and nothing
else is different. -/
structure Replaced (fs : FileSystem) (path : Text) (content : Octets) (bits : Nat)
    (fs' : FileSystem) (place : Location) : Prop where
  /-- The path names the place. -/
  locate : fs.locate path = .ok place
  /-- The file is there. -/
  disk : fs' = fs.put place (.file content bits)
  /-- There was no directory. -/
  noDirectory : ∀ bits, fs.node? place ≠ some (.directory bits)

/-- **The bits that a file can have that replaces another**, by how many actions have failed for no
reason in the file system: those of what the path led to, or those of a temporary file after their
look-up has failed. -/
def BitsAfter (fs : FileSystem) (path : Text) (mishaps bits mishaps' : Nat) : Prop :=
  (mishaps' = mishaps ∧ bits = fs.adoptedBits path) ∨
    (mishaps' = mishaps + 1 ∧ bits = Permission.ofTemporary)

/-- Where the path led to nothing there are no bits to be lost. -/
theorem BitsAfter.adopted {fs : FileSystem} {path : Text} {mishaps bits mishaps' : Nat}
    (h : fs.BitsAfter path mishaps bits mishaps') :
    bits = fs.adoptedBits path ∨
      mishaps' = mishaps + 1 ∧ ∃ old, fs.bits path = .ok old := by
  rcases h with ⟨-, hbits⟩ | ⟨hmore, hbits⟩
  · exact .inl hbits
  · rcases hold : fs.bits path with fault | old
    · exact .inl (hbits.trans (adoptedBits_of_error hold).symm)
    · exact .inr ⟨hmore, old, rfl⟩

end FileSystem

namespace Task
open FileSystem (Replaced BitsAfter)

/-- **What becomes of a temporary file**: it has taken the place that the path names, or it is left
over where it was, and nothing else is different. -/
def TemporaryFate (fs : FileSystem) (path : Text) (content : Octets) (temporary : Location)
    (mishaps : Nat) (result : Except IoFault Unit) (fs' : FileSystem) (mishaps' : Nat) : Prop :=
  (result = .ok () ∧ ∃ place bits, Replaced fs path content bits fs' place ∧
      BitsAfter fs path mishaps bits mishaps') ∨
    ∃ fault node, result = .error fault ∧ fs' = fs.put temporary node

section
variable {formatter : Formatter} {fs : FileSystem} {path : Text} {content : Octets}
  {temporary : Location} {mishaps mishaps' bits : Nat}
  (hne : temporary ≠ []) (hfree : fs.node? temporary = none)
include hne hfree

/-- A temporary file with the bits that it is to have takes the place that the path names. -/
theorem ends_rename (hbits : BitsAfter fs path mishaps bits mishaps') :
    Ends formatter (fs.put temporary (.file content bits)) mishaps'
      (changeAll [.rename temporary path]) (TemporaryFate fs path content temporary mishaps) := by
  refine .changeAll_cons (fun disk place hrename => ?_) fun fault _ => .inr ⟨fault, _, rfl, rfl⟩
  obtain ⟨hlocate, rfl, hplace⟩ := FileSystem.eq_of_rename hne hfree hrename
  exact .done (.inl ⟨rfl, place, bits, ⟨hlocate, rfl, hplace⟩, hbits⟩)

/-- **A temporary file adopts the bits of what the path leads to**, unless they cannot be looked
up. -/
theorem ends_adopt :
    Ends formatter (fs.put temporary (.file content Permission.ofTemporary)) mishaps
      (adopt path temporary) (TemporaryFate fs path content temporary mishaps) := by
  have hsame := FileSystem.adoptedBits_put hne hfree content path
  rw [adopt_eq]
  refine .disk (fun disk bits hfound => ?_) (fun fault hnone => ?_) fun _ fault => ?_
  · -- the bits are found, and set
    obtain ⟨hbits, rfl⟩ := FileSystem.of_lookUp hfound
    have hadopted : bits = fs.adoptedBits path := by
      rw [← hsame, FileSystem.adoptedBits_of_ok hbits]
    refine .changeAll_cons (fun disk location hset => ?_) fun fault _ => .inr ⟨fault, _, rfl, rfl⟩
    obtain ⟨-, rfl⟩ := FileSystem.of_setBits hset
    rw [FileSystem.setBits_file (FileSystem.node?_put_self hne fs _), FileSystem.put_put]
    exact ends_rename hne hfree (.inl ⟨rfl, hadopted⟩)
  · -- the path leads to nothing that has bits
    have hadopted : Permission.ofTemporary = fs.adoptedBits path := by
      rw [← hsame, FileSystem.adoptedBits_of_error (FileSystem.of_lookUp_error hnone)]
    exact ends_rename hne hfree (.inl ⟨rfl, hadopted⟩)
  · -- the look-up fails for no reason in the file system
    exact ends_rename hne hfree (.inr ⟨rfl, rfl⟩)

/-- **A temporary file is installed or left over.** -/
theorem ends_install :
    Ends formatter (fs.put temporary (.file [] Permission.ofTemporary)) mishaps
      (install path content temporary) (TemporaryFate fs path content temporary mishaps) := by
  have hfilled : Ends formatter (fs.put temporary (.file [] Permission.ofTemporary)) mishaps
      (changeAll [.write temporary content, .sync temporary]) fun result fs' mishaps' =>
        (result = .ok () ∧ mishaps' = mishaps ∧
          fs' = fs.put temporary (.file content Permission.ofTemporary)) ∨
        ∃ fault node, result = .error fault ∧ fs' = fs.put temporary node := by
    refine .changeAll_cons (fun disk location hwrite => ?_) fun fault _ => .inr ⟨fault, _, rfl, rfl⟩
    cases FileSystem.eq_of_write hne hwrite
    refine .changeAll_cons (fun disk location hsync => ?_) fun fault _ => .inr ⟨fault, _, rfl, rfl⟩
    cases hsync
    exact .done (.inl ⟨rfl, rfl, rfl⟩)
  rw [install_eq]
  refine .bind hfilled ?_
  rintro result fs' mishaps' (⟨rfl, rfl, rfl⟩ | ⟨fault, node, rfl, rfl⟩)
  · exact ends_adopt hne hfree
  · exact .done (.inr ⟨fault, node, rfl, rfl⟩)

end

/-- **What a replacement does to the disk**: a file is in the place that the path names, or nothing
is different. -/
theorem ends_replaceFile (formatter : Formatter) (fs : FileSystem) (mishaps : Nat) (path : Text)
    (content : Octets) :
    Ends formatter fs mishaps (replaceFile path content) fun result fs' mishaps' =>
      (result = .ok () ∧ ∃ place bits, Replaced fs path content bits fs' place ∧
        BitsAfter fs path mishaps bits mishaps') ∨ (∃ fault, result = .error fault) ∧ fs' = fs := by
  rw [replaceFile_eq]
  refine .disk (fun disk temporary hmade => ?_) (fun fault _ => ?_) fun _ fault => ?_
  · obtain ⟨hne, hfree, rfl⟩ := FileSystem.of_createTemporary hmade
    refine .bind (ends_install hne hfree) ?_
    rintro result fs' mishaps' (⟨rfl, hreplaced⟩ | ⟨fault, node, rfl, rfl⟩)
    · exact .done (.inl ⟨rfl, hreplaced⟩)
    · -- the temporary file that is left over is removed, which cannot fail
      refine .disk (fun disk location hremoved => ?_) nofun nofun
      cases hremoved
      exact .done (.inr ⟨⟨fault, rfl⟩, FileSystem.erase_put hne hfree node⟩)
  · exact .done (.inr ⟨⟨fault, rfl⟩, rfl⟩)
  · exact .done (.inr ⟨⟨fault, rfl⟩, rfl⟩)

end Task

variable {formatter : Formatter} {w w' : World} {path : Text} {content : Octets}

/-- **A replacement in all its ways.**  If it succeeds, there is a file in the place that the path
names, with the content, and nothing else is different.  It has the bits of what the path led to, or
those of a temporary file if it led to nothing; but for the case that it led to something and one
action failed for no reason in the file system, which can only be the look-up of these bits, since a
replacement survives no other failure.  The path leads to the file from then on, exactly if it names
the place without what was there as well; and it does so unless a link was there.  If a replacement
fails, at whatever action and for whatever reason, nothing is different at all. -/
theorem replaceFile_all_or_nothing {result : Except IoFault Unit}
    (h : Task.Steps formatter (Task.replaceFile path content, w) (.done result, w')) :
    (result = .ok () → ∃ place bits, w.disk.locate path = .ok place ∧
      w'.disk = w.disk.put place (.file content bits) ∧
      w'.disk.node? place = some (.file content bits) ∧
      (bits = w.disk.adoptedBits path ∨
        w'.mishaps = w.mishaps + 1 ∧ ∃ old, w.disk.bits path = .ok old) ∧
      (∀ other, other ≠ place → w'.disk.node? other = w.disk.node? other) ∧
      (w'.disk.resolve path = .ok place ↔ (w.disk.erase place).locate path = .ok place) ∧
      ((∀ target, w.disk.node? place ≠ some (.link target)) → w'.disk.resolve path = .ok place)) ∧
    ∀ fault, result = .error fault → w'.disk = w.disk := by
  obtain ⟨es, htrace, hfollows⟩ := h.trace
  rcases Task.ends_replaceFile formatter w.disk w.mishaps path content es result w w' htrace
    hfollows rfl rfl with ⟨rfl, place, bits, hreplaced, hbits⟩ | ⟨⟨fault, rfl⟩, hdisk⟩
  · obtain ⟨hlocate, hdisk, hplace⟩ := hreplaced
    refine ⟨fun _ => ⟨place, bits, hlocate, hdisk, ?_⟩, nofun⟩
    have hne : place ≠ [] := by
      obtain ⟨directory, name, rfl, -⟩ := FileSystem.locate_eq_ok_iff.mp hlocate
      simp
    have hput := FileSystem.sameBut_put hne w.disk (.file content bits)
    have hleads := FileSystem.resolve_put_iff hlocate content bits
    rw [hdisk]
    refine ⟨FileSystem.node?_put_self hne _ _, hbits.adopted, hput.frame, hleads,
      fun hlink => hleads.mpr ?_⟩
    exact FileSystem.locate_of_deadEnd (FileSystem.sameBut_erase hne w.disk) ⟨hplace, hlink⟩ hlocate
  · exact ⟨nofun, fun _ _ => hdisk⟩

/-- A file with bits of its own, and two links: one to the file, one to its directory. -/
def linkedFile : FileSystem :=
  ⟨[(["d".toList], .directory Permission.ofDirectory),
    (["d".toList, "a".toList], .file [1] 0o640),
    (["d".toList, "l".toList], .link "a".toList),
    (["m".toList], .link "d".toList)], []⟩

/-- A link to a file becomes a file with the bits of that one, which stays as it is. -/
theorem replaced_link :
    ∃ w', Task.Steps .identity (Task.replaceFile "m/l".toList [2], .start linkedFile)
        (.done (.ok ()), w') ∧
      w'.disk.node? ["d".toList, "l".toList] = some (.file [2] 0o640) ∧
      w'.disk.node? ["d".toList, "a".toList] = some (.file [1] 0o640) ∧
      w'.disk.resolve "m/l".toList = .ok ["d".toList, "l".toList] := by
  have hsteps := Task.steps_run .identity (Task.replaceFile "m/l".toList [2]) (.start linkedFile)
  have hresult : ((Task.replaceFile "m/l".toList [2]).run .identity (.start linkedFile)).1 =
      .ok () := by decide +kernel
  have hmishaps : ((Task.replaceFile "m/l".toList [2]).run .identity (.start linkedFile)).2.mishaps
      = 0 := by decide +kernel
  rw [hresult] at hsteps
  obtain ⟨place, bits, hlocate, -, hnode, hbits, hframe, hleads, -⟩ :=
    (replaceFile_all_or_nothing hsteps).1 rfl
  have hplace : linkedFile.locate "m/l".toList = .ok ["d".toList, "l".toList] := by decide +kernel
  cases hplace.symm.trans hlocate
  have hadopted : bits = 0o640 := by
    rcases hbits with hbits | ⟨hmore, -⟩
    · exact hbits.trans (by decide +kernel)
    · rw [hmishaps] at hmore
      cases hmore
  rw [hadopted] at hnode
  exact ⟨_, hsteps, hnode, hframe _ (by decide), hleads.mpr (by decide +kernel)⟩

/-- A link to a directory, which is used on the way to its own place. -/
def loopedLink : FileSystem :=
  ⟨[(["s".toList], .directory Permission.ofDirectory), (["l".toList], .link "s".toList)], []⟩

/-- **Two replacements that succeed and go amiss.**  The first bars its own way: the path leads
nowhere then.  In the second the look-up of the bits fails for no reason in the file system, and the
file has lost them. -/
theorem replaced_amiss :
    (∃ w', Task.Steps .identity (Task.replaceFile "l/../l".toList [2], .start loopedLink)
        (.done (.ok ()), w') ∧
      w'.disk.node? ["l".toList] = some (.file [2] Permission.ofDirectory) ∧
      w'.disk.follow "l/../l".toList = .error .notADirectory) ∧
    ∃ w', Task.Steps .identity (Task.replaceFile "d/a".toList [2], .start linkedFile)
        (.done (.ok ()), w') ∧
      linkedFile.node? ["d".toList, "a".toList] = some (.file [1] 0o640) ∧
      w'.disk.node? ["d".toList, "a".toList] = some (.file [2] Permission.ofTemporary) := by
  constructor
  · have hsteps :=
      Task.steps_run .identity (Task.replaceFile "l/../l".toList [2]) (.start loopedLink)
    have hresult : ((Task.replaceFile "l/../l".toList [2]).run .identity (.start loopedLink)).1 =
        .ok () := by decide +kernel
    rw [hresult] at hsteps
    exact ⟨_, hsteps, by decide +kernel, by decide +kernel⟩
  · -- a temporary file is made, written and synced, and only the look-up goes wrong
    refine ⟨_, .head (.disk _ _ _) (.head (.disk _ _ _) (.head (.disk _ _ _)
      (.head (.mishap _ _ _ .notFound rfl) (Task.steps_run _ _ _)))), ?_, ?_⟩
    · decide +kernel
    · decide +kernel

end NotebookTidy
