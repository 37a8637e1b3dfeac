import FiveSpot.Files.Operations

/-!
# Making directories

`create_dir_all` makes the directories of a path one after the other, from the first that is missing.
The walk to each of them follows links, so what is made can be in another place than the path suggests.
-/

namespace FiveSpot.Files

set_option autoImplicit false

variable {fs fs' : FileSystem} {dir path p : Path} {name : String} {links : Nat}

section Directories

theorem mkdir_eq_ok (h : fs.mkdir p = .ok fs') : ∃ path links dir name, p = path ++ [name] ∧
    fs.resolve path = .found links dir ∧ fs.entries dir = some .directory ∧
      name ≠ "." ∧ name ≠ ".." ∧ fs.entries (dir ++ [name]) = none ∧ fs.locked dir = false ∧
        Changed fs fs' (dir ++ [name]) (some .directory) := by
  unfold FileSystem.mkdir at h
  split at h
  · cases h
  · rename_i dir name hlocate
    obtain ⟨path, links, hp, hresolve, hdir, hdot, hup⟩ := locate_eq_ok hlocate
    split at h
    · cases h
    · rename_i hnone
      split at h
      · cases h
      · rename_i hlocked
        exact ⟨path, links, dir, name, hp, hresolve, hdir, hdot, hup, by simpa using hnone,
          by simpa using hlocked, (place_eq_ok h).1⟩

theorem exists_mkdir (hresolve : fs.resolve path = .found links dir)
    (hdir : fs.entries dir = some .directory) (hdot : name ≠ ".") (hup : name ≠ "..")
    (hnone : fs.entries (dir ++ [name]) = none) (hlocked : fs.locked dir = false) :
    ∃ fs', fs.mkdir (path ++ [name]) = .ok fs' ∧ Changed fs fs' (dir ++ [name]) (some .directory) := by
  have hnot : fs.entries (dir ++ [name]) ≠ some .directory := by simp [hnone]
  obtain ⟨fs', hplace⟩ := exists_place (some .directory) hdir hnot
  refine ⟨fs', ?_, (place_eq_ok hplace).1⟩
  simp only [FileSystem.mkdir, locate_concat hresolve hdir hdot hup, hnone, hlocked]
  exact hplace

theorem mkdir_eq_notFound_iff :
    fs.mkdir (path ++ [name]) = .error .notFound ↔ ∃ d n rest, fs.resolve path = .absent d n rest := by
  rw [← locate_eq_notFound_iff path name, FileSystem.mkdir]
  cases fs.locate (path ++ [name]) with
  | error fault => simp
  | ok place =>
    obtain ⟨dir, name'⟩ := place
    simp only [reduceCtorEq, iff_false]
    split
    · simp
    · split
      · simp
      · rw [FileSystem.place]
        split
        · split <;> simp
        · simp

theorem mkdir_of_not_absent (h : ∀ d n rest, fs.resolve p ≠ .absent d n rest) :
    ∃ fault, fs.mkdir p = .error fault ∧ fault ≠ .notFound := by
  cases hmkdir : fs.mkdir p with
  | ok fs' =>
    obtain ⟨path, links, dir, name, rfl, hresolve, hdir, hdot, hup, hnone, _⟩ := mkdir_eq_ok hmkdir
    exact absurd (resolve_concat_absent hresolve hdir hdot hup hnone) (h _ _ _)
  | error fault =>
    refine ⟨fault, rfl, ?_⟩
    rintro rfl
    rcases List.eq_nil_or_concat p with rfl | ⟨path, name, rfl⟩
    · cases hmkdir
    · rw [List.concat_eq_append] at h hmkdir
      obtain ⟨d, n, rest, habsent⟩ := mkdir_eq_notFound_iff.mp hmkdir
      refine h d n (rest ++ [name]) ?_
      rw [resolve_append, habsent]
      rfl

theorem mkdir_of_found (h : fs.resolve p = .found links dir) :
    ∃ fault, fs.mkdir p = .error fault ∧ fault ≠ .notFound :=
  mkdir_of_not_absent (by simp [h])

theorem isDir_of_isDir_append {more : List String} (h : fs.isDir (p ++ more) = true) :
    fs.isDir p = true := by
  obtain ⟨links, dir, hresolve, hdir⟩ := isDir_iff.mp h
  obtain ⟨links', dir', hfront, hwalk⟩ := exists_resolve_of_append hresolve
  refine isDir_iff.mpr ⟨links', dir', hfront, ?_⟩
  cases more with
  | nil =>
    rw [walk_of_advance_done rfl] at hwalk
    cases hwalk
    exact hdir
  | cons name names =>
    by_contra hnot
    rw [walk_of_not_directory hnot] at hwalk
    cases hwalk

end Directories

section Ensuring

theorem isDir_of_mkdir (h : fs.mkdir p = .ok fs') : fs'.isDir p = true ∧ Extends fs fs' := by
  obtain ⟨path, links, dir, name, rfl, hresolve, hdir, hdot, hup, hnone, _, hchanged⟩ := mkdir_eq_ok h
  have hextends := hchanged.extends hnone
  refine ⟨isDir_iff.mpr ⟨links, dir ++ [name], ?_, hchanged.entries_self⟩, hextends⟩
  exact resolve_concat_directory (hextends.walk hresolve) (hextends.eq_some hdir) hdot hup
    hchanged.entries_self

theorem ensureDir_of_isDir (h : fs.isDir p = true) : fs.ensureDir p = (.ok (), fs) := by
  obtain ⟨links, dir, hresolve, _⟩ := isDir_iff.mp h
  obtain ⟨fault, hmkdir, _⟩ := mkdir_of_found hresolve
  rw [FileSystem.ensureDir, hmkdir]
  simp [h]

theorem ensureDir_of_mkdir (h : fs.mkdir p = .ok fs') : fs.ensureDir p = (.ok (), fs') := by
  rw [FileSystem.ensureDir, h]

theorem isDir_of_ensureDir (h : fs.ensureDir p = (.ok (), fs')) : fs'.isDir p = true := by
  unfold FileSystem.ensureDir at h
  split at h
  · rename_i hmkdir
    cases h
    exact (isDir_of_mkdir hmkdir).1
  · split at h
    · rename_i hdir
      cases h
      exact hdir
    · cases h

theorem extends_ensureDir (fs : FileSystem) (p : Path) : Extends fs (fs.ensureDir p).2 := by
  unfold FileSystem.ensureDir
  split
  · rename_i hmkdir
    exact (isDir_of_mkdir hmkdir).2
  · split <;> exact .refl fs

theorem ensureDir_cases (fs : FileSystem) (p : Path) :
    (fs.ensureDir p).2 = fs ∨ ∃ fs', fs.mkdir p = .ok fs' ∧ fs.ensureDir p = (.ok (), fs') := by
  cases hmkdir : fs.mkdir p with
  | ok fs' => exact .inr ⟨fs', rfl, ensureDir_of_mkdir hmkdir⟩
  | error fault =>
    left
    rw [FileSystem.ensureDir, hmkdir]
    dsimp only
    split <;> rfl

end Ensuring

section CreateDirAll

theorem createDirAll_reverse :
    fs.createDirAll (path ++ [name]) = fs.createDirAllFrom (name :: path.reverse) := by
  rw [FileSystem.createDirAll, List.reverse_append, List.reverse_singleton, List.singleton_append]

theorem createDirAll_of_fault {fault : Fault} (h : fs.mkdir p = .error fault) (hfault : fault ≠ .notFound) :
    fs.createDirAll p = if fs.isDir p then (.ok (), fs) else (.error fault, fs) := by
  rcases List.eq_nil_or_concat p with rfl | ⟨path, name, rfl⟩
  · rw [FileSystem.createDirAll, List.reverse_nil, FileSystem.createDirAllFrom, FileSystem.ensureDir, h]
  · rw [List.concat_eq_append] at h ⊢
    rw [createDirAll_reverse, FileSystem.createDirAllFrom, List.reverse_reverse, h]
    cases fault <;> first | rfl | exact absurd rfl hfault

theorem createDirAll_of_isDir (h : fs.isDir p = true) : fs.createDirAll p = (.ok (), fs) := by
  obtain ⟨links, dir, hresolve, _⟩ := isDir_iff.mp h
  obtain ⟨fault, hmkdir, hfault⟩ := mkdir_of_found hresolve
  rw [createDirAll_of_fault hmkdir hfault, if_pos h]

theorem createDirAll_concat (fs : FileSystem) (p : Path) (name : String) :
    (∀ fs₀, fs.createDirAll p = (.ok (), fs₀) →
      fs.createDirAll (p ++ [name]) = fs₀.ensureDir (p ++ [name])) ∧
    ∀ fault fs₀, fs.createDirAll p = (.error fault, fs₀) →
      ∃ fault', fs.createDirAll (p ++ [name]) = (.error fault', fs₀) := by
  by_cases habsent : ∃ d n rest, fs.resolve p = .absent d n rest
  · -- something is missing: the parents are created first
    have hmkdir : fs.mkdir (p ++ [name]) = .error .notFound := mkdir_eq_notFound_iff.mpr habsent
    rw [createDirAll_reverse, FileSystem.createDirAllFrom, List.reverse_reverse, hmkdir]
    refine ⟨fun fs₀ h => ?_, fun fault fs₀ h => ⟨fault, ?_⟩⟩
    all_goals
      rw [FileSystem.createDirAll] at h
      simp only [h]
  · have hnot : ∀ d n rest, fs.resolve p ≠ .absent d n rest := fun d n rest h =>
      habsent ⟨d, n, rest, h⟩
    by_cases hdir : fs.isDir p = true
    · rw [createDirAll_of_isDir hdir]
      refine ⟨fun fs₀ h => ?_, fun _ _ => (nomatch ·)⟩
      cases h
      cases hmkdir : fs.mkdir (p ++ [name]) with
      | ok fs' =>
        rw [ensureDir_of_mkdir hmkdir, createDirAll_reverse, FileSystem.createDirAllFrom,
          List.reverse_reverse, hmkdir]
      | error fault =>
        have hfault : fault ≠ .notFound := by
          rintro rfl
          exact habsent (mkdir_eq_notFound_iff.mp hmkdir)
        rw [createDirAll_of_fault hmkdir hfault, FileSystem.ensureDir, hmkdir]
    · -- the parent is there and no directory, or it cannot be reached: nothing is done
      obtain ⟨fault, hmkdir, hfault⟩ := mkdir_of_not_absent hnot
      rw [createDirAll_of_fault hmkdir hfault, if_neg hdir]
      refine ⟨fun _ => (nomatch ·), fun fault₀ fs₀ h => ?_⟩
      cases h
      cases hmkdir' : fs.mkdir (p ++ [name]) with
      | ok fs' =>
        obtain ⟨path, links, dir, name', heq, hresolve, hdir', _⟩ := mkdir_eq_ok hmkdir'
        obtain ⟨rfl, _⟩ := List.append_inj' heq rfl
        exact absurd (isDir_iff.mpr ⟨links, dir, hresolve, hdir'⟩) hdir
      | error fault' =>
        have hfault' : fault' ≠ .notFound := by
          rintro rfl
          exact habsent (mkdir_eq_notFound_iff.mp hmkdir')
        refine ⟨fault', ?_⟩
        rw [createDirAll_of_fault hmkdir' hfault', if_neg fun h => hdir (isDir_of_isDir_append h)]

theorem createDirAll_error_append {fault : Fault} {fs₀ : FileSystem}
    (h : fs.createDirAll p = (.error fault, fs₀)) (more : List String) :
    ∃ fault', fs.createDirAll (p ++ more) = (.error fault', fs₀) := by
  induction more generalizing p fault with
  | nil => exact ⟨fault, by rw [List.append_nil, h]⟩
  | cons name more ih =>
    obtain ⟨fault', h'⟩ := (createDirAll_concat fs p name).2 fault fs₀ h
    rw [List.append_cons]
    exact ih h'

def FileSystem.ensureAll (fs : FileSystem) (p : Path) : List String → Except Fault Unit × FileSystem
  | [] => (.ok (), fs)
  | name :: rest =>
      match fs.ensureDir (p ++ [name]) with
      | (.ok (), fs') => fs'.ensureAll (p ++ [name]) rest
      | failed => failed

theorem createDirAll_append {fs₀ : FileSystem} (h : fs.createDirAll p = (.ok (), fs₀))
    (more : List String) : (fs.createDirAll (p ++ more)).2 = (fs₀.ensureAll p more).2 ∧
      (fs.createDirAll (p ++ more)).1.toOption = (fs₀.ensureAll p more).1.toOption := by
  induction more generalizing p fs₀ with
  | nil =>
    rw [List.append_nil, h]
    exact ⟨rfl, rfl⟩
  | cons name more ih =>
    have hnext := (createDirAll_concat fs p name).1 fs₀ h
    rw [List.append_cons, FileSystem.ensureAll]
    cases hensure : fs₀.ensureDir (p ++ [name]) with
    | mk result fs₁ =>
      rw [hensure] at hnext
      cases result with
      | ok => exact ih hnext
      | error fault =>
        obtain ⟨fault', herror⟩ := createDirAll_error_append hnext more
        rw [herror]
        exact ⟨rfl, rfl⟩

theorem isDir_of_createDirAll {fs₀ : FileSystem} (h : fs.createDirAll p = (.ok (), fs₀)) :
    fs₀.isDir p = true := by
  rcases List.eq_nil_or_concat p with rfl | ⟨path, name, rfl⟩
  · exact isDir_of_ensureDir h
  · rw [List.concat_eq_append] at h ⊢
    cases hparent : fs.createDirAll path with
    | mk result fs₁ =>
      cases result with
      | ok =>
        rw [(createDirAll_concat fs path name).1 fs₁ hparent] at h
        exact isDir_of_ensureDir h
      | error fault =>
        obtain ⟨fault', herror⟩ := (createDirAll_concat fs path name).2 fault fs₁ hparent
        rw [herror] at h
        cases h

theorem not_isDir_of_createDirAll {fault : Fault} {fs₀ : FileSystem}
    (h : fs.createDirAll p = (.error fault, fs₀)) : fs₀.isDir p = false := by
  have hensure : ∀ {fs fs₀ : FileSystem} {p : Path} {fault : Fault},
      fs.ensureDir p = (.error fault, fs₀) → fs₀.isDir p = false := by
    intro fs fs₀ p fault h
    unfold FileSystem.ensureDir at h
    split at h
    · cases h
    · split at h
      · cases h
      · rename_i hnot
        cases h
        simpa using hnot
  induction p using List.reverseRecOn generalizing fault fs₀ with
  | nil => exact hensure h
  | append_singleton path name ih =>
    cases hparent : fs.createDirAll path with
    | mk result fs₁ =>
      cases result with
      | ok =>
        rw [(createDirAll_concat fs path name).1 fs₁ hparent] at h
        exact hensure h
      | error fault' =>
        obtain ⟨fault'', herror⟩ := (createDirAll_concat fs path name).2 fault' fs₁ hparent
        obtain rfl : fs₁ = fs₀ := congrArg Prod.snd (herror.symm.trans h)
        by_contra hdir
        have hup := isDir_of_isDir_append (by simpa using hdir)
        rw [ih hparent] at hup
        cases hup

theorem createDirAll_made {d : Path} (hnone : fs.entries d = none)
    (hsome : ((fs.createDirAll p).2.entries d).isSome) :
    ∃ front, front <+: p ∧ (fs.createDirAll p).2.canonicalize front = .ok d := by
  have hensure : ∀ {fs : FileSystem} {q : Path}, fs.entries d = none →
      ((fs.ensureDir q).2.entries d).isSome → (fs.ensureDir q).2.canonicalize q = .ok d := by
    intro fs q hnone hsome
    rcases ensureDir_cases fs q with hsame | ⟨fs', hmkdir, hok⟩
    · rw [hsame, hnone] at hsome
      cases hsome
    · rw [hok] at hsome ⊢
      obtain ⟨path, links, dir, name, rfl, hresolve, hdir, hdot, hup, hmissing, _, hchanged⟩ :=
        mkdir_eq_ok hmkdir
      have hd : d = dir ++ [name] := by
        by_contra hne
        rw [hchanged.entries_of_ne hne, hnone] at hsome
        cases hsome
      have hextends := hchanged.extends hmissing
      rw [FileSystem.canonicalize, resolve_concat_directory (hextends.walk hresolve)
        (hextends.eq_some hdir) hdot hup hchanged.entries_self, hd]
      rfl
  induction p using List.reverseRecOn with
  | nil => exact ⟨[], List.prefix_refl [], hensure hnone hsome⟩
  | append_singleton path name ih =>
    cases hparent : fs.createDirAll path with
    | mk result fs₁ =>
      rw [hparent] at ih
      cases result with
      | error fault =>
        obtain ⟨fault', herror⟩ := (createDirAll_concat fs path name).2 fault fs₁ hparent
        rw [herror] at hsome ⊢
        obtain ⟨front, hfront, hcanon⟩ := ih hsome
        exact ⟨front, hfront.trans (List.prefix_append path [name]), hcanon⟩
      | ok =>
        rw [(createDirAll_concat fs path name).1 fs₁ hparent] at hsome ⊢
        cases hmade : fs₁.entries d with
        | none => exact ⟨path ++ [name], List.prefix_refl _, hensure hmade hsome⟩
        | some entry =>
          obtain ⟨front, hfront, hcanon⟩ := ih (by rw [hmade]; rfl)
          exact ⟨front, hfront.trans (List.prefix_append path [name]),
            (extends_ensureDir fs₁ (path ++ [name])).canonicalize hcanon⟩

theorem extends_createDirAll (fs : FileSystem) (p : Path) : Extends fs (fs.createDirAll p).2 := by
  induction p using List.reverseRecOn with
  | nil => exact extends_ensureDir fs []
  | append_singleton path name ih =>
    cases hparent : fs.createDirAll path with
    | mk result fs₁ =>
      rw [hparent] at ih
      cases result with
      | error fault =>
        obtain ⟨fault', herror⟩ := (createDirAll_concat fs path name).2 fault fs₁ hparent
        rw [herror]
        exact ih
      | ok =>
        rw [(createDirAll_concat fs path name).1 fs₁ hparent]
        exact ih.trans (extends_ensureDir fs₁ (path ++ [name]))

theorem extends_ensureAll (fs : FileSystem) (p : Path) (names : List String) :
    Extends fs (fs.ensureAll p names).2 := by
  induction names generalizing fs p with
  | nil => exact .refl fs
  | cons name names ih =>
    have hfirst := extends_ensureDir fs (p ++ [name])
    rw [FileSystem.ensureAll]
    cases hensure : fs.ensureDir (p ++ [name]) with
    | mk result fs₁ =>
      rw [hensure] at hfirst
      cases result with
      | ok => exact hfirst.trans (ih fs₁ (p ++ [name]))
      | error fault => exact hfirst

end CreateDirAll

section Escapes

variable {base : Path} {names : List String}

/--
On the way along `names` from `p` a directory is reached that is not under `base`, and the next name is
missing there and can be made.
-/
structure EscapesAt (fs : FileSystem) (p base : Path) (front : List String) (name : String)
    (dir : Path) : Prop where
  reached : ∃ links, fs.resolve (p ++ front) = .found links dir
  directory : fs.entries dir = some .directory
  unlocked : fs.locked dir = false
  missing : fs.entries (dir ++ [name]) = none
  outside : ¬ base <+: dir

def Escapes (fs : FileSystem) (p base : Path) (names : List String) : Prop :=
  ∃ front name rest dir, names = front ++ name :: rest ∧ EscapesAt fs p base front name dir

theorem changed_of_mkdir (h : fs.mkdir (p ++ [name]) = .ok fs') :
    ∃ links dir, fs.resolve p = .found links dir ∧ fs.entries dir = some .directory ∧ Plain name ∧
      fs.entries (dir ++ [name]) = none ∧ fs.locked dir = false ∧
        Changed fs fs' (dir ++ [name]) (some .directory) := by
  obtain ⟨path, links, dir, name', heq, hresolve, hdir, hdot, hup, hnone, hlocked, hchanged⟩ :=
    mkdir_eq_ok h
  obtain ⟨rfl, hname⟩ := List.append_inj' heq rfl
  obtain rfl : name = name' := List.singleton_inj.mp hname
  exact ⟨links, dir, hresolve, hdir, ⟨hdot, hup⟩, hnone, hlocked, hchanged⟩

theorem ensureAll_fresh {d : Path} (hnames : ∀ name ∈ names, Plain name)
    (hresolve : fs.resolve p = .found links dir) (hdir : fs.entries dir = some .directory)
    (hempty : ∀ name, fs.entries (dir ++ [name]) = none) (hbase : base <+: dir)
    (hnone : fs.entries d = none) (hsome : ((fs.ensureAll p names).2.entries d).isSome) :
    base <+: d := by
  induction names generalizing fs p links dir with
  | nil =>
    rw [FileSystem.ensureAll, hnone] at hsome
    cases hsome
  | cons name names ih =>
    obtain ⟨hname, hrest⟩ := List.forall_mem_cons.mp hnames
    rw [FileSystem.ensureAll] at hsome
    cases hmkdir : fs.mkdir (p ++ [name]) with
    | ok fs₁ =>
      rw [ensureDir_of_mkdir hmkdir] at hsome
      obtain ⟨links', dir', hresolve', _, _, _, _, hchanged⟩ := changed_of_mkdir hmkdir
      obtain ⟨rfl, rfl⟩ : links = links' ∧ dir = dir' := by
        simpa using hresolve.symm.trans hresolve'
      have hextends := hchanged.extends (hempty name)
      by_cases hd : d = dir ++ [name]
      · rw [hd]
        exact hbase.trans (List.prefix_append dir [name])
      refine ih hrest (resolve_concat_directory (hextends.walk hresolve) (hextends.eq_some hdir) hname.1
        hname.2 hchanged.entries_self) hchanged.entries_self (fun n => ?_)
        (hbase.trans (List.prefix_append dir [name])) (by rw [hchanged.entries_of_ne hd, hnone]) hsome
      rw [hchanged.entries_of_ne (by simp), entries_below_none (hempty name)]
    | error fault =>
      -- the name is missing, so that there is no directory that would do
      have habsent := resolve_concat_absent hresolve hdir hname.1 hname.2 (hempty name)
      have hnot : fs.isDir (p ++ [name]) = false := by
        simp [FileSystem.isDir, FileSystem.canonicalize, habsent, Walk.result]
      have hensure : fs.ensureDir (p ++ [name]) = (.error fault, fs) := by
        rw [FileSystem.ensureDir, hmkdir]
        simp [hnot]
      rw [hensure, hnone] at hsome
      cases hsome

theorem ensureAll_inside {d : Path} (hnames : ∀ name ∈ names, Plain name)
    (hsafe : ¬ Escapes fs p base names) (hnone : fs.entries d = none)
    (hsome : ((fs.ensureAll p names).2.entries d).isSome) : base <+: d := by
  induction names generalizing p with
  | nil =>
    rw [FileSystem.ensureAll, hnone] at hsome
    cases hsome
  | cons name names ih =>
    obtain ⟨hname, hrest⟩ := List.forall_mem_cons.mp hnames
    rw [FileSystem.ensureAll] at hsome
    rcases ensureDir_cases fs (p ++ [name]) with hsame | ⟨fs₁, hmkdir, hensure⟩
    · cases hensure : fs.ensureDir (p ++ [name]) with
      | mk result fs₁ =>
        rw [hensure] at hsome hsame
        obtain rfl : fs₁ = fs := hsame
        cases result with
        | error fault =>
          rw [hnone] at hsome
          cases hsome
        | ok =>
          refine ih hrest ?_ hsome
          rintro ⟨front, next, rest, dir, rfl, hescape⟩
          refine hsafe ⟨name :: front, next, rest, dir, rfl, ?_, hescape.directory, hescape.unlocked,
            hescape.missing, hescape.outside⟩
          obtain ⟨links, hreached⟩ := hescape.reached
          exact ⟨links, by rw [List.append_cons]; exact hreached⟩
    · rw [hensure] at hsome
      obtain ⟨links, dir, hresolve, hdir, _, hmissing, hlocked, hchanged⟩ := changed_of_mkdir hmkdir
      have hbase : base <+: dir := by
        by_contra hout
        refine hsafe ⟨[], name, names, dir, rfl, ⟨links, ?_⟩, hdir, hlocked, hmissing, hout⟩
        rw [List.append_nil, hresolve]
      have hextends := hchanged.extends hmissing
      by_cases hd : d = dir ++ [name]
      · rw [hd]
        exact hbase.trans (List.prefix_append dir [name])
      refine ensureAll_fresh hrest (resolve_concat_directory (hextends.walk hresolve)
        (hextends.eq_some hdir) hname.1 hname.2 hchanged.entries_self) hchanged.entries_self (fun n => ?_)
        (hbase.trans (List.prefix_append dir [name])) (by rw [hchanged.entries_of_ne hd, hnone]) hsome
      rw [hchanged.entries_of_ne (by simp), entries_below_none hmissing]

theorem ensureAll_escapes {front rest : List String} (hname : Plain name)
    (h : EscapesAt fs p base front name dir) :
    (fs.ensureAll p (front ++ name :: rest)).2.entries (dir ++ [name]) = some .directory := by
  induction front generalizing p with
  | nil =>
    obtain ⟨links, hreached⟩ := h.reached
    rw [List.append_nil] at hreached
    obtain ⟨fs₁, hmkdir, hchanged⟩ := exists_mkdir hreached h.directory hname.1 hname.2 h.missing h.unlocked
    rw [List.nil_append, FileSystem.ensureAll, ensureDir_of_mkdir hmkdir]
    exact (extends_ensureAll fs₁ (p ++ [name]) rest).eq_some hchanged.entries_self
  | cons next front ih =>
    obtain ⟨links, hreached⟩ := h.reached
    rw [List.append_cons] at hreached
    have hdir : fs.isDir (p ++ [next]) = true :=
      isDir_of_isDir_append (isDir_iff.mpr ⟨links, dir, hreached, h.directory⟩)
    rw [List.cons_append, FileSystem.ensureAll, ensureDir_of_isDir hdir]
    exact ih ⟨⟨links, hreached⟩, h.directory, h.unlocked, h.missing, h.outside⟩

end Escapes

end FiveSpot.Files
