import Mathlib.Data.List.Induction
import Mathlib.Tactic.Common

/-!
# Walking a file system with symbolic links

A file system is a tree of entries. A walk along a path follows the links it meets, up to a number of
them, and ends at an entry that is no link, at the first name that is missing, or in a failure.
-/

namespace FiveSpot.Files

set_option autoImplicit false

abbrev Path := List String

inductive Entry where
  | file (content : List UInt8)
  | directory
  | symlink (absolute : Bool) (target : List String)
  deriving DecidableEq

/-- What is at each place; nothing can be added to or taken from a locked directory. -/
structure FileSystem where
  entries : Path → Option Entry
  locked : Path → Bool
  root : entries [] = some .directory
  closed : ∀ path name, (entries (path ++ [name])).isSome → entries path = some .directory

/-- How far a path leads up to the first link in it. -/
inductive Stretch where
  | done (path : Path)
  | absent (dir : Path) (name : String) (rest : List String)
  | link (start : Path) (rest : List String)
  | notDirectory

/-- Where a path leads; `links` more links could have been followed. -/
inductive Walk where
  | found (links : Nat) (path : Path)
  | absent (dir : Path) (name : String) (rest : List String)
  | notDirectory
  | loop
  deriving DecidableEq

namespace FileSystem

/-- The file system with the given entries, in directories that are all among them. -/
def ofEntries (entries : List (Path × Entry)) (locked : List Path)
    (root : entries.lookup [] = some .directory)
    (closed : ∀ entry ∈ entries, entry.1 ≠ [] → entries.lookup entry.1.dropLast = some .directory) :
    FileSystem where
  entries path := entries.lookup path
  locked path := locked.contains path
  root := root
  closed path name hsome := by
    obtain ⟨entry, hentry⟩ := Option.isSome_iff_exists.mp hsome
    obtain ⟨before, after, heq, _⟩ := List.lookup_eq_some_iff.mp hentry
    have hparent := closed (path ++ [name], entry) (by simp [heq]) (by simp)
    simpa using hparent

variable (fs : FileSystem)

def advance : Path → List String → Stretch
  | dir, [] => .done dir
  | dir, name :: rest =>
      if fs.entries dir ≠ some .directory then .notDirectory
      else if name = "." then advance dir rest
      else if name = ".." then advance dir.dropLast rest
      else
        match fs.entries (dir ++ [name]) with
        | none => .absent dir name rest
        | some (.symlink absolute target) => .link (if absolute then [] else dir) (target ++ rest)
        | some _ => advance (dir ++ [name]) rest

def walk : Nat → Path → List String → Walk
  | 0, dir, names =>
      match fs.advance dir names with
      | .done path => .found 0 path
      | .absent d name rest => .absent d name rest
      | .link _ _ => .loop
      | .notDirectory => .notDirectory
  | links + 1, dir, names =>
      match fs.advance dir names with
      | .done path => .found (links + 1) path
      | .absent d name rest => .absent d name rest
      | .link start rest => walk links start rest
      | .notDirectory => .notDirectory

def maxLinks : Nat := 40

def resolve (path : Path) : Walk := fs.walk maxLinks [] path

end FileSystem

variable {fs fs' : FileSystem} {dir path p q : Path} {names : List String} {links : Nat}

section Append

def Stretch.andThen (fs : FileSystem) (more : List String) : Stretch → Stretch
  | .done path => fs.advance path more
  | .absent dir name rest => .absent dir name (rest ++ more)
  | .link start rest => .link start (rest ++ more)
  | .notDirectory => .notDirectory

def Walk.andThen (fs : FileSystem) (more : List String) : Walk → Walk
  | .found links path => fs.walk links path more
  | .absent dir name rest => .absent dir name (rest ++ more)
  | .notDirectory => .notDirectory
  | .loop => .loop

theorem advance_append (more : List String) :
    fs.advance dir (names ++ more) = (fs.advance dir names).andThen fs more := by
  induction names generalizing dir with
  | nil => rfl
  | cons name names ih =>
    rw [List.cons_append]
    unfold FileSystem.advance
    by_cases hdir : fs.entries dir ≠ some .directory
    · simp only [if_pos hdir]
      rfl
    · simp only [if_neg hdir]
      by_cases hdot : name = "."
      · simp only [if_pos hdot]
        exact ih
      · simp only [if_neg hdot]
        by_cases hup : name = ".."
        · simp only [if_pos hup]
          exact ih
        · simp only [if_neg hup]
          split
          · rfl
          · rw [← List.append_assoc]
            rfl
          · exact ih

theorem walk_append (more : List String) :
    fs.walk links dir (names ++ more) = (fs.walk links dir names).andThen fs more := by
  induction links generalizing dir names with
  | zero =>
    rw [FileSystem.walk, advance_append, FileSystem.walk]
    cases fs.advance dir names with
    | done path =>
      change _ = fs.walk 0 path more
      rw [FileSystem.walk]
      rfl
    | absent | link | notDirectory => rfl
  | succ links ih =>
    rw [FileSystem.walk, advance_append, FileSystem.walk]
    cases fs.advance dir names with
    | done path =>
      change _ = fs.walk (links + 1) path more
      rw [FileSystem.walk]
      rfl
    | absent => rfl
    | link start rest => exact ih
    | notDirectory => rfl

theorem resolve_append (more : List String) :
    fs.resolve (path ++ more) = (fs.resolve path).andThen fs more :=
  walk_append more

theorem exists_resolve_of_append {more : List String} (h : fs.resolve (p ++ more) = .found links path) :
    ∃ links' dir, fs.resolve p = .found links' dir ∧ fs.walk links' dir more = .found links path := by
  rw [resolve_append] at h
  cases hp : fs.resolve p with
  | found links' dir =>
    rw [hp] at h
    exact ⟨links', dir, rfl, h⟩
  | absent | notDirectory | loop =>
    rw [hp] at h
    cases h

end Append

section Step

variable {name : String}

def Entry.isLink : Entry → Bool
  | .symlink _ _ => true
  | _ => false

theorem walk_of_advance_done (h : fs.advance dir names = .done path) :
    fs.walk links dir names = .found links path := by
  cases links <;> rw [FileSystem.walk, h]

theorem walk_absent (hdir : fs.entries dir = some .directory) (hdot : name ≠ ".") (hup : name ≠ "..")
    (hnone : fs.entries (dir ++ [name]) = none) : fs.walk links dir [name] = .absent dir name [] := by
  have hadvance : fs.advance dir [name] = .absent dir name [] := by
    simp [FileSystem.advance, hdir, hdot, hup, hnone]
  cases links <;> rw [FileSystem.walk, hadvance]

theorem advance_plain {entry : Entry} (hdir : fs.entries dir = some .directory) (hdot : name ≠ ".")
    (hup : name ≠ "..") (hentry : fs.entries (dir ++ [name]) = some entry)
    (hlink : entry.isLink = false) : fs.advance dir [name] = .done (dir ++ [name]) := by
  cases entry with
  | symlink absolute target => cases hlink
  | file | directory => simp [FileSystem.advance, hdir, hdot, hup, hentry]

theorem advance_of_not_directory (hdir : fs.entries dir ≠ some .directory) :
    fs.advance dir (name :: names) = .notDirectory := by
  simp [FileSystem.advance, hdir]

theorem walk_of_not_directory (hdir : fs.entries dir ≠ some .directory) :
    fs.walk links dir (name :: names) = .notDirectory := by
  cases links <;> rw [FileSystem.walk, advance_of_not_directory hdir]

end Step

section Extends

def Extends (fs fs' : FileSystem) : Prop := ∀ path, (fs.entries path).isSome → fs'.entries path = fs.entries path

theorem Extends.refl (fs : FileSystem) : Extends fs fs := fun _ _ => rfl

theorem Extends.trans {fs'' : FileSystem} (h : Extends fs fs') (h' : Extends fs' fs'') :
    Extends fs fs'' := by
  intro path hpath
  rw [h' path (by rw [h path hpath]; exact hpath), h path hpath]

theorem Extends.eq_some (h : Extends fs fs') {entry : Entry} (hpath : fs.entries path = some entry) :
    fs'.entries path = some entry := by
  rw [h path (by rw [hpath]; rfl), hpath]

theorem Extends.advance (h : Extends fs fs') : (∀ path, fs.advance dir names = .done path →
      fs'.advance dir names = .done path) ∧
    ∀ start rest, fs.advance dir names = .link start rest → fs'.advance dir names = .link start rest := by
  induction names generalizing dir with
  | nil => exact ⟨fun _ => id, fun _ _ => id⟩
  | cons name names ih =>
    unfold FileSystem.advance
    by_cases hdir : fs.entries dir = some .directory
    · simp only [hdir, h.eq_some hdir, ne_eq, not_true_eq_false, if_false]
      by_cases hdot : name = "."
      · simpa only [if_pos hdot] using ih
      · simp only [if_neg hdot]
        by_cases hup : name = ".."
        · simpa only [if_pos hup] using ih
        · simp only [if_neg hup]
          cases hentry : fs.entries (dir ++ [name]) with
          | none => exact ⟨fun _ => (nomatch ·), fun _ _ => (nomatch ·)⟩
          | some entry =>
            rw [h.eq_some hentry]
            cases entry with
            | symlink => exact ⟨fun _ => id, fun _ _ => id⟩
            | file | directory => exact ih
    · simp only [ne_eq, hdir, not_false_eq_true, if_true]
      exact ⟨fun _ => (nomatch ·), fun _ _ => (nomatch ·)⟩

theorem Extends.walk (h : Extends fs fs') {links' : Nat}
    (hwalk : fs.walk links dir names = .found links' path) :
    fs'.walk links dir names = .found links' path := by
  induction links generalizing dir names with
  | zero =>
    rw [FileSystem.walk] at hwalk ⊢
    cases hadvance : fs.advance dir names with
    | done path =>
      rw [hadvance] at hwalk
      rw [h.advance.1 _ hadvance]
      exact hwalk
    | absent | link | notDirectory =>
      rw [hadvance] at hwalk
      cases hwalk
  | succ links ih =>
    rw [FileSystem.walk] at hwalk ⊢
    cases hadvance : fs.advance dir names with
    | done path =>
      rw [hadvance] at hwalk
      rw [h.advance.1 _ hadvance]
      exact hwalk
    | link start rest =>
      rw [hadvance] at hwalk
      rw [h.advance.2 _ _ hadvance]
      exact ih hwalk
    | absent | notDirectory =>
      rw [hadvance] at hwalk
      cases hwalk

end Extends

section Canonical

/-- A place as a walk gives it: without the dot names, and not a link. -/
structure Canonical (fs : FileSystem) (path : Path) : Prop where
  names : ∀ name ∈ path, name ≠ "." ∧ name ≠ ".."
  entry : ∃ entry, fs.entries path = some entry ∧ entry.isLink = false

theorem canonical_root (fs : FileSystem) : Canonical fs [] := ⟨by simp, .directory, fs.root, rfl⟩

theorem Canonical.front {name : String} (h : Canonical fs (path ++ [name])) :
    Canonical fs path ∧ fs.entries path = some .directory := by
  obtain ⟨entry, hentry, _⟩ := h.entry
  have hdir : fs.entries path = some .directory := fs.closed path name (by rw [hentry]; rfl)
  exact ⟨⟨fun n hn => h.names n (List.mem_append_left _ hn), .directory, hdir, rfl⟩, hdir⟩

theorem Canonical.dropLast (h : Canonical fs path) : Canonical fs path.dropLast := by
  rcases List.eq_nil_or_concat path with rfl | ⟨front, name, rfl⟩
  · exact h
  · rw [List.concat_eq_append] at h
    rw [List.concat_eq_append, List.dropLast_concat]
    exact h.front.1

theorem Canonical.advance (h : Canonical fs dir) :
    (∀ path, fs.advance dir names = .done path → Canonical fs path) ∧
      ∀ start rest, fs.advance dir names = .link start rest → Canonical fs start := by
  induction names generalizing dir with
  | nil =>
    refine ⟨fun path heq => ?_, fun _ _ => (nomatch ·)⟩
    cases heq
    exact h
  | cons name names ih =>
    unfold FileSystem.advance
    split
    · exact ⟨fun _ => (nomatch ·), fun _ _ => (nomatch ·)⟩
    · split
      · exact ih h
      · rename_i hdot
        split
        · exact ih h.dropLast
        · rename_i hup
          split
          · exact ⟨fun _ => (nomatch ·), fun _ _ => (nomatch ·)⟩
          · refine ⟨fun _ => (nomatch ·), fun start rest heq => ?_⟩
            cases heq
            split
            · exact canonical_root fs
            · exact h
          · rename_i entry hlink hentry
            refine ih ⟨fun n hn => ?_, entry, hentry, ?_⟩
            · rcases List.mem_append.mp hn with hn | hn
              · exact h.names n hn
              · rw [List.mem_singleton.mp hn]
                exact ⟨hdot, hup⟩
            · cases entry with
              | symlink absolute target => exact absurd rfl (hlink absolute target)
              | file | directory => rfl

theorem Canonical.walk (h : Canonical fs dir) {links' : Nat}
    (hwalk : fs.walk links dir names = .found links' path) : Canonical fs path := by
  induction links generalizing dir names with
  | zero =>
    rw [FileSystem.walk] at hwalk
    split at hwalk
    · rename_i hadvance
      cases hwalk
      exact h.advance.1 _ hadvance
    · cases hwalk
    · cases hwalk
    · cases hwalk
  | succ links ih =>
    rw [FileSystem.walk] at hwalk
    split at hwalk
    · rename_i hadvance
      cases hwalk
      exact h.advance.1 _ hadvance
    · cases hwalk
    · rename_i hadvance
      exact ih (h.advance.2 _ _ hadvance) hwalk
    · cases hwalk

theorem canonical_of_resolve {links' : Nat} (h : fs.resolve path = .found links' p) : Canonical fs p :=
  (canonical_root fs).walk h

theorem Canonical.advance_self (h : Canonical fs path) : fs.advance [] path = .done path := by
  induction path using List.reverseRecOn with
  | nil => rfl
  | append_singleton front name ih =>
    obtain ⟨hfront, hdir⟩ := h.front
    obtain ⟨hdot, hup⟩ := h.names name (by simp)
    obtain ⟨entry, hentry, hlink⟩ := h.entry
    rw [advance_append, ih hfront]
    exact advance_plain hdir hdot hup hentry hlink

theorem Canonical.resolve (h : Canonical fs path) :
    fs.resolve path = .found FileSystem.maxLinks path :=
  walk_of_advance_done h.advance_self

end Canonical

end FiveSpot.Files
