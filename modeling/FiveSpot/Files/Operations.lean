import FiveSpot.Files.Walk
import Mathlib.Logic.Function.Basic

/-!
# Operations on a file system

What the system calls behind `std::fs` do to the entries. Reading, writing and changing the mode follow
a link at the end of the path; making a directory, removing and renaming act on the link itself.
-/

namespace FiveSpot.Files

set_option autoImplicit false

inductive Fault where
  | notFound
  | alreadyExists
  | notDirectory
  | isDirectory
  | loop
  | denied
  deriving DecidableEq

def Walk.result : Walk → Except Fault Path
  | .found _ path => .ok path
  | .absent _ _ _ => .error .notFound
  | .notDirectory => .error .notDirectory
  | .loop => .error .loop

namespace FileSystem

variable (fs : FileSystem)

def put (dir : Path) (name : String) (entry : Option Entry) (hdir : fs.entries dir = some .directory)
    (hnot : fs.entries (dir ++ [name]) ≠ some .directory) : FileSystem where
  entries := Function.update fs.entries (dir ++ [name]) entry
  locked := Function.update fs.locked (dir ++ [name]) false
  root := by
    rw [Function.update_of_ne (by simp)]
    exact fs.root
  closed path name' hsome := by
    have hself : dir ≠ dir ++ [name] := by simp
    by_cases hplace : path ++ [name'] = dir ++ [name]
    · obtain ⟨rfl, _⟩ := List.append_inj' hplace rfl
      rwa [Function.update_of_ne hself]
    · rw [Function.update_of_ne hplace] at hsome
      have hparent := fs.closed path name' hsome
      have hpath : path ≠ dir ++ [name] := by
        rintro rfl
        exact hnot hparent
      rwa [Function.update_of_ne hpath]

def place (dir : Path) (name : String) (entry : Option Entry) : Except Fault FileSystem :=
  if hdir : fs.entries dir = some .directory then
    if hnot : fs.entries (dir ++ [name]) = some .directory then .error .isDirectory
    else .ok (fs.put dir name entry hdir hnot)
  else .error .notDirectory

def locate (path : Path) : Except Fault (Path × String) :=
  match path.getLast? with
  | none => .error .isDirectory
  | some name =>
      match (fs.resolve path.dropLast).result with
      | .error fault => .error fault
      | .ok dir =>
          if fs.entries dir ≠ some .directory then .error .notDirectory
          else if name = "." ∨ name = ".." then .error .isDirectory
          else .ok (dir, name)

def canonicalize (path : Path) : Except Fault Path := (fs.resolve path).result

def isDir (path : Path) : Bool :=
  match fs.canonicalize path with
  | .ok dir => fs.entries dir == some .directory
  | .error _ => false

def mkdir (path : Path) : Except Fault FileSystem :=
  match fs.locate path with
  | .error fault => .error fault
  | .ok (dir, name) =>
      if (fs.entries (dir ++ [name])).isSome then .error .alreadyExists
      else if fs.locked dir then .error .denied
      else fs.place dir name (some .directory)

/-- `mkdir`, where a directory that is there already will do. -/
def ensureDir (path : Path) : Except Fault Unit × FileSystem :=
  match fs.mkdir path with
  | .ok fs' => (.ok (), fs')
  | .error fault => if fs.isDir path then (.ok (), fs) else (.error fault, fs)

/-- `create_dir_all`, on the reversed path. -/
def createDirAllFrom : List String → Except Fault Unit × FileSystem
  | [] => fs.ensureDir []
  | name :: parents =>
      match fs.mkdir (parents.reverse ++ [name]) with
      | .ok fs' => (.ok (), fs')
      | .error .notFound =>
          match createDirAllFrom parents with
          | (.ok (), fs') => fs'.ensureDir (parents.reverse ++ [name])
          | failed => failed
      | .error fault =>
          if fs.isDir (parents.reverse ++ [name]) then (.ok (), fs) else (.error fault, fs)

def createDirAll (path : Path) : Except Fault Unit × FileSystem := fs.createDirAllFrom path.reverse

def removeFile (path : Path) : Except Fault FileSystem :=
  match fs.locate path with
  | .error fault => .error fault
  | .ok (dir, name) =>
      match fs.entries (dir ++ [name]) with
      | none => .error .notFound
      | some .directory => .error .isDirectory
      | some _ => if fs.locked dir then .error .denied else fs.place dir name none

def readFile (path : Path) : Except Fault (List UInt8) :=
  match fs.canonicalize path with
  | .error fault => .error fault
  | .ok path =>
      match fs.entries path with
      | some (.file content) => .ok content
      | _ => .error .isDirectory

/-- What a path names when it is opened for writing: a link to nothing has the file created there. -/
def writeTarget (path : Path) : Except Fault (Path × String) :=
  match fs.resolve path with
  | .absent dir name [] => if fs.locked dir then .error .denied else .ok (dir, name)
  | .absent _ _ (_ :: _) => .error .notFound
  | .notDirectory => .error .notDirectory
  | .loop => .error .loop
  | .found _ path =>
      match path.getLast? with
      | none => .error .isDirectory
      | some name => .ok (path.dropLast, name)

def writeFile (path : Path) (content : List UInt8) : Except Fault FileSystem :=
  match fs.writeTarget path with
  | .error fault => .error fault
  | .ok (dir, name) => fs.place dir name (some (.file content))

def renameFile (source target : Path) : Except Fault FileSystem :=
  match fs.locate source, fs.locate target with
  | .error fault, _ | _, .error fault => .error fault
  | .ok (dir, name), .ok (dir', name') =>
      match fs.entries (dir ++ [name]) with
      | none => .error .notFound
      | some .directory => .error .isDirectory
      | some entry =>
          if fs.locked dir || fs.locked dir' then .error .denied
          else
            match fs.place dir name none with
            | .error fault => .error fault
            | .ok fs' => fs'.place dir' name' (some entry)

end FileSystem

variable {fs fs' : FileSystem} {dir path p : Path} {name : String} {links : Nat}

/-- A name that a walk does not treat in a way of its own. -/
def Plain (name : String) : Prop := name ≠ "." ∧ name ≠ ".."

section Place

/-- What one call has done to the entries. -/
structure Changed (fs fs' : FileSystem) (path : Path) (entry : Option Entry) : Prop where
  entries : fs'.entries = Function.update fs.entries path entry
  locked : fs'.locked = Function.update fs.locked path false
  notDirectory : fs.entries path ≠ some .directory

theorem place_eq_ok {entry : Option Entry} (h : fs.place dir name entry = .ok fs') :
    Changed fs fs' (dir ++ [name]) entry ∧ fs.entries dir = some .directory := by
  unfold FileSystem.place at h
  split at h
  · rename_i hdir
    split at h
    · cases h
    · rename_i hnot
      cases h
      exact ⟨⟨rfl, rfl, hnot⟩, hdir⟩
  · cases h

theorem exists_place (entry : Option Entry) (hdir : fs.entries dir = some .directory)
    (hnot : fs.entries (dir ++ [name]) ≠ some .directory) :
    ∃ fs', fs.place dir name entry = .ok fs' := by
  refine ⟨fs.put dir name entry hdir hnot, ?_⟩
  rw [FileSystem.place, dif_pos hdir, dif_neg hnot]

variable {entry : Option Entry}

theorem Changed.entries_of_ne (h : Changed fs fs' path entry) (hne : p ≠ path) :
    fs'.entries p = fs.entries p := by
  rw [h.entries, Function.update_of_ne hne]

theorem Changed.entries_self (h : Changed fs fs' path entry) : fs'.entries path = entry := by
  rw [h.entries, Function.update_self]

theorem Changed.directory (h : Changed fs fs' path entry) (hp : fs.entries p = some .directory) :
    fs'.entries p = some .directory := by
  have hne : p ≠ path := by
    rintro rfl
    exact h.notDirectory hp
  rw [h.entries_of_ne hne, hp]

theorem Changed.extends (h : Changed fs fs' path entry) (hnone : fs.entries path = none) :
    Extends fs fs' := by
  intro p hp
  refine h.entries_of_ne ?_
  rintro rfl
  rw [hnone] at hp
  cases hp

end Place

theorem entries_below_none (h : fs.entries path = none) : fs.entries (path ++ [name]) = none := by
  by_contra hchild
  have hdir := fs.closed path name (Option.isSome_iff_ne_none.mpr hchild)
  rw [h] at hdir
  cases hdir

section Locate

theorem locate_concat (hparent : fs.resolve path = .found links dir)
    (hdir : fs.entries dir = some .directory) (hdot : name ≠ ".") (hup : name ≠ "..") :
    fs.locate (path ++ [name]) = .ok (dir, name) := by
  simp [FileSystem.locate, hparent, Walk.result, hdir, hdot, hup]

theorem locate_eq_ok (h : fs.locate p = .ok (dir, name)) : ∃ path links, p = path ++ [name] ∧
    fs.resolve path = .found links dir ∧ fs.entries dir = some .directory ∧ name ≠ "." ∧ name ≠ ".." := by
  rcases List.eq_nil_or_concat p with rfl | ⟨path, name', rfl⟩
  · cases h
  rw [List.concat_eq_append] at h ⊢
  rw [FileSystem.locate, List.getLast?_concat, List.dropLast_concat] at h
  cases hparent : fs.resolve path with
  | absent | notDirectory | loop =>
    rw [hparent] at h
    cases h
  | found links dir' =>
    simp only [hparent, Walk.result] at h
    split at h
    · cases h
    · rename_i hdir
      split at h
      · cases h
      · rename_i hname
        cases h
        obtain ⟨hdot, hup⟩ := not_or.mp hname
        exact ⟨path, links, rfl, hparent, by simpa using hdir, hdot, hup⟩

theorem locate_eq_notFound_iff (path : Path) (name : String) :
    fs.locate (path ++ [name]) = .error .notFound ↔ ∃ d n rest, fs.resolve path = .absent d n rest := by
  rw [FileSystem.locate, List.getLast?_concat, List.dropLast_concat]
  cases fs.resolve path with
  | absent d n rest => simp [Walk.result]
  | notDirectory | loop => simp [Walk.result]
  | found links dir =>
    simp only [Walk.result, reduceCtorEq, exists_false, iff_false]
    split
    · simp
    · split <;> simp

theorem isDir_iff : fs.isDir path = true ↔
    ∃ links dir, fs.resolve path = .found links dir ∧ fs.entries dir = some .directory := by
  unfold FileSystem.isDir FileSystem.canonicalize
  cases fs.resolve path with
  | found links dir => simp [Walk.result]
  | absent | notDirectory | loop => simp [Walk.result]

theorem resolve_concat_absent (hresolve : fs.resolve path = .found links dir)
    (hdir : fs.entries dir = some .directory) (hdot : name ≠ ".") (hup : name ≠ "..")
    (hnone : fs.entries (dir ++ [name]) = none) :
    fs.resolve (path ++ [name]) = .absent dir name [] := by
  rw [resolve_append, hresolve]
  exact walk_absent hdir hdot hup hnone

theorem resolve_concat_directory (hresolve : fs.resolve path = .found links dir)
    (hdir : fs.entries dir = some .directory) (hdot : name ≠ ".") (hup : name ≠ "..")
    (hentry : fs.entries (dir ++ [name]) = some .directory) :
    fs.resolve (path ++ [name]) = .found links (dir ++ [name]) := by
  rw [resolve_append, hresolve]
  exact walk_of_advance_done (advance_plain hdir hdot hup hentry rfl)

end Locate

section Within

variable {base : Path} {fs'' : FileSystem}

/-- Nothing outside of `base` has changed, and every directory is still one. -/
structure Within (base : Path) (fs fs' : FileSystem) : Prop where
  outside : ∀ path, ¬ base <+: path → fs'.entries path = fs.entries path
  directories : ∀ path, fs.entries path = some .directory → fs'.entries path = some .directory

theorem Within.refl (base : Path) (fs : FileSystem) : Within base fs fs := ⟨fun _ _ => rfl, fun _ => id⟩

theorem Within.trans (h : Within base fs fs') (h' : Within base fs' fs'') : Within base fs fs'' where
  outside path hout := (h'.outside path hout).trans (h.outside path hout)
  directories path hdir := h'.directories path (h.directories path hdir)

theorem Changed.within {entry : Option Entry} (h : Changed fs fs' path entry) (hbase : base <+: path) :
    Within base fs fs' where
  outside _ hout := h.entries_of_ne fun heq => hout (heq ▸ hbase)
  directories _ := h.directory

/-- A directory by the path a walk gives. -/
structure Folder (fs : FileSystem) (dir : Path) : Prop where
  names : ∀ name ∈ dir, Plain name
  directory : fs.entries dir = some .directory

theorem Folder.canonical (h : Folder fs dir) : Canonical fs dir := ⟨h.names, .directory, h.directory, rfl⟩

theorem Folder.within (h : Folder fs dir) (hwithin : Within base fs fs') : Folder fs' dir :=
  ⟨h.names, hwithin.directories dir h.directory⟩

theorem Extends.canonicalize (h : Extends fs fs') (hpath : fs.canonicalize path = .ok p) :
    fs'.canonicalize path = .ok p := by
  unfold FileSystem.canonicalize FileSystem.resolve at hpath ⊢
  cases hwalk : fs.walk FileSystem.maxLinks [] path with
  | found links q =>
    rw [hwalk] at hpath
    cases hpath
    rw [h.walk hwalk]
    rfl
  | absent | notDirectory | loop =>
    rw [hwalk] at hpath
    cases hpath

theorem isSome_of_canonicalize (h : fs.canonicalize path = .ok p) : (fs.entries p).isSome = true := by
  unfold FileSystem.canonicalize at h
  cases hwalk : fs.resolve path with
  | found links q =>
    rw [hwalk] at h
    cases h
    obtain ⟨entry, hentry, _⟩ := (canonical_of_resolve hwalk).entry
    rw [hentry]
    rfl
  | absent | notDirectory | loop =>
    rw [hwalk] at h
    cases h

theorem folder_of_isDir (h : fs.isDir path = true) : ∃ dir, fs.canonicalize path = .ok dir ∧ Folder fs dir := by
  obtain ⟨links, dir, hresolve, hdir⟩ := isDir_iff.mp h
  refine ⟨dir, by rw [FileSystem.canonicalize, hresolve]; rfl, fun name hname => ?_, hdir⟩
  exact (canonical_of_resolve hresolve).names name hname

theorem changed_of_writeFile {content : List UInt8} (h : fs.writeFile path content = .ok fs') :
    ∃ dir name, fs.writeTarget path = .ok (dir, name) ∧
      Changed fs fs' (dir ++ [name]) (some (.file content)) := by
  unfold FileSystem.writeFile at h
  split at h
  · cases h
  · rename_i dir name htarget
    exact ⟨dir, name, htarget, (place_eq_ok h).1⟩

variable (hdir : Folder fs dir) (hname : Plain name) (hbase : base <+: dir)

include hdir in
theorem Folder.isDir : fs.isDir dir = true := isDir_iff.mpr ⟨_, dir, hdir.canonical.resolve, hdir.directory⟩

include hdir hname in
theorem Folder.locate : fs.locate (dir ++ [name]) = .ok (dir, name) :=
  locate_concat hdir.canonical.resolve hdir.directory hname.1 hname.2

include hdir hname hbase

omit hbase in
theorem changed_of_removeFile (h : fs.removeFile (dir ++ [name]) = .ok fs') :
    Changed fs fs' (dir ++ [name]) none := by
  rw [FileSystem.removeFile, hdir.locate hname] at h
  dsimp only at h
  split at h
  · cases h
  · cases h
  · split at h
    · cases h
    · exact (place_eq_ok h).1

theorem within_removeFile (h : fs.removeFile (dir ++ [name]) = .ok fs') : Within base fs fs' :=
  (changed_of_removeFile hdir hname h).within (hbase.trans (List.prefix_append dir [name]))

theorem within_renameFile {name' : String} (hname' : Plain name')
    (h : fs.renameFile (dir ++ [name]) (dir ++ [name']) = .ok fs') : Within base fs fs' := by
  rw [FileSystem.renameFile, hdir.locate hname, hdir.locate hname'] at h
  dsimp only at h
  split at h
  · cases h
  · cases h
  · split at h
    · cases h
    · split at h
      · cases h
      · rename_i fs₁ hremoved
        have hfirst := (place_eq_ok hremoved).1.within (hbase.trans (List.prefix_append dir [name]))
        exact hfirst.trans ((place_eq_ok h).1.within (hbase.trans (List.prefix_append dir [name'])))

omit hbase in
theorem writeTarget_of_not_link (hlink : ∀ absolute target,
    fs.entries (dir ++ [name]) ≠ some (.symlink absolute target)) {target : Path × String}
    (h : fs.writeTarget (dir ++ [name]) = .ok target) : target = (dir, name) := by
  have hself := hdir.canonical.resolve
  cases hentry : fs.entries (dir ++ [name]) with
  | none =>
    rw [FileSystem.writeTarget, resolve_concat_absent hself hdir.directory hname.1 hname.2 hentry] at h
    dsimp only at h
    split at h
    · cases h
    · cases h
      rfl
  | some entry =>
    have hplain : entry.isLink = false := by
      cases entry with
      | symlink absolute target => exact absurd hentry (hlink absolute target)
      | file | directory => rfl
    have hfound : fs.resolve (dir ++ [name]) = .found FileSystem.maxLinks (dir ++ [name]) := by
      rw [resolve_append, hself]
      exact walk_of_advance_done (advance_plain hdir.directory hname.1 hname.2 hentry hplain)
    rw [FileSystem.writeTarget, hfound] at h
    simp only [List.getLast?_concat, List.dropLast_concat, Except.ok.injEq] at h
    exact h.symm

section Link

variable {absolute : Bool} {target : List String}
  (hlink : fs.entries (dir ++ [name]) = some (.symlink absolute target))

omit hbase
include hlink

theorem removeFile_of_locked (hlocked : fs.locked dir = true) :
    fs.removeFile (dir ++ [name]) = .error .denied := by
  rw [FileSystem.removeFile, hdir.locate hname]
  simp only [hlink, hlocked, if_true]

theorem exists_removeFile (hlocked : fs.locked dir = false) :
    ∃ fs', fs.removeFile (dir ++ [name]) = .ok fs' := by
  have hnot : fs.entries (dir ++ [name]) ≠ some .directory := by simp [hlink]
  obtain ⟨fs', hplace⟩ := exists_place none hdir.directory hnot
  refine ⟨fs', ?_⟩
  rw [FileSystem.removeFile, hdir.locate hname]
  simpa only [hlink, hlocked, Bool.false_eq_true, if_false] using hplace

end Link

end Within

end FiveSpot.Files
