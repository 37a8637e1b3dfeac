import FiveSpot.Effects.Oracle
import FiveSpot.Files.Directories
import FiveSpot.Kata.Agent

/-!
# Whether host writes stay confined

`confine_dest_path` and `sync_content` on a file system with symbolic links. The path that is returned
is always one in the base, but the directories of the destination are created before it is known where
they are, and the temporary file is written through a link where the link cannot be removed.
-/

namespace FiveSpot.Kata

set_option autoImplicit false

open Effects Effects.Prog Files Utf8

structure Host where
  fs : FileSystem
  pid : Nat

def ioError : Fault → IoError
  | .notFound => .notFound
  | .alreadyExists => .other "File exists (os error 17)"
  | .notDirectory => .other "Not a directory (os error 20)"
  | .isDirectory => .other "Is a directory (os error 21)"
  | .loop => .other "Too many levels of symbolic links (os error 40)"
  | .denied => .permissionDenied "Permission denied (os error 13)"

namespace Host

def update (h : Host) : Except Fault FileSystem → Except IoError Unit × Host
  | .ok fs => (.ok (), { h with fs := fs })
  | .error fault => (.error (ioError fault), h)

/-- The calls on files are answered by the file system; no other is answered at all. -/
def serve (h : Host) : (op : Call) → Result op × Host
  | .createDirAll path =>
      ((h.fs.createDirAll path).1.mapError ioError, { h with fs := (h.fs.createDirAll path).2 })
  | .canonicalize path => ((h.fs.canonicalize path).mapError ioError, h)
  | .readFile path => ((h.fs.readFile path).mapError ioError, h)
  | .writeFile path content => h.update (h.fs.writeFile path content)
  | .setPermissions path _ => (((h.fs.canonicalize path).mapError ioError).map fun _ => (), h)
  | .rename source target => h.update (h.fs.renameFile source target)
  | .removeFile path => h.update (h.fs.removeFile path)
  | .processId => (h.pid, h)
  | .getNode _ => (.error (.other "no answer"), h)
  | .patchNode _ _ => (.error (.other "no answer"), h)
  | .getConfigMap _ _ => (.error (.other "no answer"), h)
  | .getSecret _ _ => (.error (.other "no answer"), h)
  | .command _ => (.error (.other "no answer"), h)

def run {α : Type} (h : Host) (x : Tick α) : Except AgentError α × Host := x.run.evalFrom serve h

variable {α β : Type} (h : Host)

theorem run_call_bind (op : Call) (f : Result op → Tick β) :
    h.run (call op >>= f) = (h.serve op).2.run (f (h.serve op).1) := rfl

theorem run_orIo_ok (a : α) (f : α → Tick β) : h.run (orIo (.ok a) >>= f) = h.run (f a) := rfl

variable {h} {h' : Host}

theorem run_bind_ok {x : Tick α} {a : α} (f : α → Tick β) (hx : h.run x = (.ok a, h')) :
    h.run (x >>= f) = h'.run (f a) :=
  evalFrom_run_bind f hx

theorem run_bind_error {x : Tick α} {e : AgentError} (f : α → Tick β) (hx : h.run x = (.error e, h')) :
    h.run (x >>= f) = (.error e, h') := by
  unfold run at hx ⊢
  rw [run_bind_eq, evalFrom_bind, hx]
  rfl

theorem run_bind_pure (x : Tick α) (b : β) : (h.run (x >>= fun _ => pure b)).2 = (h.run x).2 := by
  cases hx : h.run x with
  | mk result h' =>
    cases result with
    | ok a => rw [run_bind_ok _ hx]; rfl
    | error e => rw [run_bind_error _ hx]

end Host

section Lexical

theorem suffix_getLast_splitChars {c : Char} {w t : List Char} (hc : c ∉ t) (ht : t <:+ w) :
    ∃ front last, Text.splitChars c w = front ++ [last] ∧ t <:+ last := by
  obtain ⟨part, parts, hsplit⟩ := List.exists_cons_of_ne_nil (Text.splitChars_ne_nil c w)
  have hw := Text.eq_of_splitChars hsplit
  rcases List.eq_nil_or_concat parts with rfl | ⟨front, last, rfl⟩
  · refine ⟨[], part, hsplit, ?_⟩
    simpa [hw] using ht
  · rw [List.concat_eq_append] at hsplit hw
    refine ⟨part :: front, last, hsplit, ?_⟩
    have hlast : c :: last <:+ w := by
      rw [hw, List.flatMap_append, List.flatMap_singleton, ← List.append_assoc]
      exact List.suffix_append _ _
    rcases Nat.lt_or_ge last.length t.length with hlt | hge
    · have hin : c :: last <:+ t := List.suffix_of_suffix_length_le hlast ht hlt
      exact absurd (hin.subset List.mem_cons_self) hc
    · exact List.suffix_of_suffix_length_le ht ((List.suffix_cons c last).trans hlast) hge

/-- A destination that passes the lexical checks: the directories below the base, and the file. -/
structure Accepted (destPath : String) (segs : List String) (file : String) : Prop where
  base : Text.startsWith kataConfigDestBase destPath = true
  suffix : Text.endsWith destFileSuffix destPath = true
  plain : (((Text.split '/' destPath).drop 1).any fun seg =>
    seg.isEmpty || seg == "." || seg == "..") = false
  parts : Path.ofString (trimStart destPath) = ["etc", "k0s"] ++ segs ++ [file]

theorem exists_accepted {destPath : String} (hbase : Text.startsWith kataConfigDestBase destPath = true)
    (hsuffix : Text.endsWith destFileSuffix destPath = true)
    (hplain : (((Text.split '/' destPath).drop 1).any fun seg =>
      seg.isEmpty || seg == "." || seg == "..") = false) :
    ∃ segs file, Accepted destPath segs file ∧ (∀ seg ∈ segs, Plain seg) ∧ Plain file ∧
      Text.endsWith destFileSuffix file = true := by
  obtain ⟨rest, hrest⟩ : kataConfigDestBase.toList <+: destPath.toList :=
    List.isPrefixOf_iff_prefix.mp hbase
  have hsegs : ∀ x ∈ ["etc".toList, "k0s".toList], '/' ∉ x := by decide
  have hsplit : Text.splitChars '/' destPath.toList =
      [] :: "etc".toList :: "k0s".toList :: Text.splitChars '/' rest := by
    rw [← hrest]
    exact congrArg ([] :: ·) (Text.splitChars_flatMap hsegs rest)
  have htrim : Text.split '/' (trimStart destPath) = (Text.split '/' destPath).drop 1 := by
    rw [Text.split, Text.split, hsplit, trimStart, ← hrest, String.toList_ofList]
    exact congrArg (List.map String.ofList) (Text.splitChars_flatMap hsegs rest)
  have hdrop : (Text.split '/' destPath).drop 1 =
      "etc" :: "k0s" :: (Text.splitChars '/' rest).map .ofList := by
    rw [Text.split, hsplit]
    simp
  obtain ⟨front, last, hlast⟩ : ∃ front last, Text.splitChars '/' rest = front ++ [last] := by
    rcases List.eq_nil_or_concat (Text.splitChars '/' rest) with hnil | ⟨front, last, hlast⟩
    · exact absurd hnil (Text.splitChars_ne_nil '/' rest)
    · exact ⟨front, last, by rw [hlast, List.concat_eq_append]⟩
  have hfile : destFileSuffix.toList <:+ last := by
    have hslash : '/' ∉ destFileSuffix.toList := by decide
    obtain ⟨front', last', hlast', hfile⟩ := suffix_getLast_splitChars hslash
      (List.isSuffixOf_iff_suffix.mp hsuffix)
    have heq : ([] :: "etc".toList :: "k0s".toList :: front) ++ [last] = front' ++ [last'] := by
      rw [← hlast', hsplit, hlast]
      rfl
    obtain ⟨_, hsame⟩ := List.append_inj' heq rfl
    rwa [List.singleton_inj.mp hsame]
  have hgood : ∀ seg ∈ (Text.split '/' destPath).drop 1, seg ≠ "" ∧ seg ≠ "." ∧ seg ≠ ".." := by
    intro seg hseg
    have hnot := List.any_eq_false.mp hplain seg hseg
    simpa [and_assoc] using hnot
  have hparts : Path.ofString (trimStart destPath) =
      ["etc", "k0s"] ++ front.map .ofList ++ [.ofList last] := by
    rw [Path.ofString, htrim, List.filter_eq_self.mpr, hdrop, hlast]
    · simp
    · intro seg hseg
      obtain ⟨hempty, hdot, _⟩ := hgood seg hseg
      simp [hempty, hdot]
  rw [hdrop, hlast] at hgood
  refine ⟨front.map .ofList, .ofList last, ⟨hbase, hsuffix, hplain, hparts⟩, fun seg hseg => ?_, ?_, ?_⟩
  · exact (hgood seg (by simp_all)).2
  · exact (hgood (.ofList last) (by simp)).2
  · rw [Text.endsWith, String.toList_ofList, List.isSuffixOf_iff_suffix]
    exact hfile

end Lexical

/-- `<host_root>/etc/k0s`. -/
def destBase (hostRoot : Path) : Path := hostRoot ++ ["etc", "k0s"]

def Host.confine (h : Host) (hostRoot : Path) (destPath : String) : Except AgentError Path × Host :=
  h.run (confineDestPath hostRoot destPath)

section Confine

variable {h : Host} {hostRoot : Path} {destPath file : String} {segs : List String}

theorem confine_refused (h : Host) (hostRoot : Path) (hrefused : ¬ ∃ segs file, Accepted destPath segs file) :
    ∃ e, h.confine hostRoot destPath = (.error e, h) := by
  unfold Host.confine confineDestPath
  by_cases hbase : Text.startsWith kataConfigDestBase destPath = true
  · by_cases hsuffix : Text.endsWith destFileSuffix destPath = true
    · by_cases hplain : (((Text.split '/' destPath).drop 1).any fun seg =>
          seg.isEmpty || seg == "." || seg == "..") = true
      · rw [if_neg (by simpa using hbase), if_neg (by simpa using hsuffix), if_pos hplain]
        exact ⟨_, rfl⟩
      · obtain ⟨segs, file, haccepted, _⟩ := exists_accepted hbase hsuffix (by simpa using hplain)
        exact absurd ⟨segs, file, haccepted⟩ hrefused
    · rw [if_neg (by simpa using hbase), if_pos (by simpa using hsuffix)]
      exact ⟨_, rfl⟩
  · rw [if_pos (by simpa using hbase)]
    exact ⟨_, rfl⟩

theorem Accepted.names (ha : Accepted destPath segs file) : (∀ seg ∈ segs, Plain seg) ∧ Plain file ∧
    Text.endsWith destFileSuffix file = true := by
  obtain ⟨segs', file', ha', hsegs, hfile, htoml⟩ := exists_accepted ha.base ha.suffix ha.plain
  have heq := ha.parts.symm.trans ha'.parts
  obtain ⟨hfront, hlast⟩ := List.append_inj' heq rfl
  obtain rfl := List.append_cancel_left hfront
  obtain rfl := List.singleton_inj.mp hlast
  exact ⟨hsegs, hfile, htoml⟩

theorem confine_accepted (ha : Accepted destPath segs file) : h.confine hostRoot destPath = h.run (do
    orIo (← call (.createDirAll (destBase hostRoot ++ segs)))
    orIo (← call (.createDirAll (destBase hostRoot)))
    let canonParent ← orIo (← call (.canonicalize (destBase hostRoot ++ segs)))
    let canonBase ← orIo (← call (.canonicalize (destBase hostRoot)))
    if !canonBase.isPrefixOf canonParent then
      throw (refusal destPath "resolves outside the allowed base (symlink?)")
    else return canonParent ++ [file]) := by
  have hfull : hostRoot ++ Path.ofString (trimStart destPath) = (destBase hostRoot ++ segs) ++ [file] := by
    simp [ha.parts, destBase]
  have hbase : Path.ofString (trimStart kataConfigDestBase) = ["etc", "k0s"] := by decide +kernel
  unfold Host.confine confineDestPath
  rw [if_neg (by simp [ha.base]), if_neg (by simp [ha.suffix]), if_neg (Bool.eq_false_iff.mp ha.plain),
    hfull, hbase]
  simp only [Path.parent, Path.fileName, List.append_eq_nil_iff, List.cons_ne_nil, and_false, if_false,
    List.dropLast_concat, List.getLast?_concat]
  rfl

theorem confine_of_error (ha : Accepted destPath segs file) {fault : Fault} {fs₁ : FileSystem}
    (hmade : h.fs.createDirAll (destBase hostRoot ++ segs) = (.error fault, fs₁)) :
    h.confine hostRoot destPath = (.error (.io (ioError fault)), { h with fs := fs₁ }) := by
  rw [confine_accepted ha, Host.run_call_bind]
  simp only [Host.serve, hmade, Except.mapError]
  rfl

theorem confine_of_ok (ha : Accepted destPath segs file) {fs₁ : FileSystem}
    (hmade : h.fs.createDirAll (destBase hostRoot ++ segs) = (.ok (), fs₁)) :
    ∃ dir base, fs₁.canonicalize (destBase hostRoot ++ segs) = .ok dir ∧ Folder fs₁ dir ∧
      fs₁.canonicalize (destBase hostRoot) = .ok base ∧
        (base <+: dir → h.confine hostRoot destPath = (.ok (dir ++ [file]), { h with fs := fs₁ })) ∧
        (¬ base <+: dir → ∃ e, h.confine hostRoot destPath = (.error e, { h with fs := fs₁ })) := by
  have hparent := isDir_of_createDirAll hmade
  have hbase := isDir_of_isDir_append hparent
  obtain ⟨dir, hdir, hfolder⟩ := folder_of_isDir hparent
  obtain ⟨base, hcanon, _⟩ := folder_of_isDir hbase
  let h₁ : Host := { h with fs := fs₁ }
  have hfirst : h.serve (.createDirAll (destBase hostRoot ++ segs)) = (.ok (), h₁) := by
    simp only [Host.serve, hmade, Except.mapError, h₁]
  have hsecond : h₁.serve (.createDirAll (destBase hostRoot)) = (.ok (), h₁) := by
    simp only [Host.serve, createDirAll_of_isDir hbase, Except.mapError, h₁]
  have hthird : h₁.serve (.canonicalize (destBase hostRoot ++ segs)) = (.ok dir, h₁) := by
    simp only [Host.serve, hdir, Except.mapError, h₁]
  have hfourth : h₁.serve (.canonicalize (destBase hostRoot)) = (.ok base, h₁) := by
    simp only [Host.serve, hcanon, Except.mapError, h₁]
  have hrun : h.confine hostRoot destPath = h₁.run (if !base.isPrefixOf dir then
      throw (refusal destPath "resolves outside the allowed base (symlink?)")
    else return dir ++ [file]) := by
    rw [confine_accepted ha, Host.run_call_bind, hfirst]
    dsimp only
    rw [Host.run_orIo_ok, Host.run_call_bind, hsecond]
    dsimp only
    rw [Host.run_orIo_ok, Host.run_call_bind, hthird]
    dsimp only
    rw [Host.run_orIo_ok, Host.run_call_bind, hfourth]
    rfl
  refine ⟨dir, base, hdir, hfolder, hcanon, fun hin => ?_, fun hout => ?_⟩
  · rw [hrun, List.isPrefixOf_iff_prefix.mpr hin]
    rfl
  · have hfalse : base.isPrefixOf dir = false := by
      rw [← Bool.not_eq_true, List.isPrefixOf_iff_prefix]
      exact hout
    rw [hrun, hfalse]
    exact ⟨_, rfl⟩

end Confine

section Sync

variable {sha256 : Bytes → Bytes} {h : Host} {base dir : Path} {file name : String} {bytes : Bytes}

def tempName (file : String) (pid : Nat) : String := file ++ "." ++ tempSuffix ++ "." ++ toString pid

theorem plain_tempName (file : String) (pid : Nat) : Plain (tempName file pid) := by
  have hlength : 9 ≤ (tempName file pid).toList.length := by
    have hsuffix : tempSuffix.toList.length = 9 := by decide
    simp only [tempName, String.toList_append, List.length_append, hsuffix]
    omega
  constructor
  · intro heq
    rw [heq] at hlength
    exact absurd hlength (by decide)
  · intro heq
    rw [heq] at hlength
    exact absurd hlength (by decide)

def Host.sync (h : Host) (sha256 : Bytes → Bytes) (content : Option Bytes) (dest : Path) :
    Except AgentError SyncOutcome × Host :=
  h.run (syncContent sha256 content dest)

theorem run_fileSha256 (sha256 : Bytes → Bytes) (h : Host) (dest : Path) :
    (h.run (fileSha256 sha256 dest)).2 = h := by
  rw [fileSha256, Host.run_call_bind]
  simp only [Host.serve]
  cases h.fs.readFile dest with
  | ok content => rfl
  | error fault => cases fault <;> rfl

/--
The temporary file cannot be removed and is a link; there is content to be written, and written through
the link it changes something outside of the base.
-/
structure Leaks (sha256 : Bytes → Bytes) (h : Host) (base dir : Path) (file : String) (bytes : Bytes)
    (fs' : FileSystem) (path : Path) : Prop where
  locked : h.fs.locked dir = true
  link : ∃ absolute target, h.fs.entries (dir ++ [tempName file h.pid]) = some (.symlink absolute target)
  stale : ∃ hash, (h.run (fileSha256 sha256 (dir ++ [file]))).1 = .ok hash ∧
    hash ≠ some (sha256Hex sha256 bytes)
  written : h.fs.writeFile (dir ++ [tempName file h.pid]) bytes = .ok fs'
  outside : ¬ base <+: path
  changed : fs'.entries path ≠ h.fs.entries path

section Folder

variable (hfolder : Folder h.fs dir) (hbase : base <+: dir)

include hfolder hbase

theorem within_serve_removeFile (hname : Plain name) :
    Within base h.fs (h.serve (.removeFile (dir ++ [name]))).2.fs := by
  simp only [Host.serve]
  cases hremove : h.fs.removeFile (dir ++ [name]) with
  | error fault => exact .refl base h.fs
  | ok fs' => exact within_removeFile hfolder hname hbase hremove

theorem within_serve_rename {name' : String} (hname : Plain name) (hname' : Plain name') :
    Within base h.fs (h.serve (.rename (dir ++ [name]) (dir ++ [name']))).2.fs := by
  simp only [Host.serve]
  cases hrename : h.fs.renameFile (dir ++ [name]) (dir ++ [name']) with
  | error fault => exact .refl base h.fs
  | ok fs' => exact within_renameFile hfolder hname hbase hname' hrename

omit hbase in
theorem serve_removeFile_of_link (hname : Plain name)
    (hlink : ∃ absolute target, (h.serve (.removeFile (dir ++ [name]))).2.fs.entries (dir ++ [name]) =
      some (.symlink absolute target)) :
    (h.serve (.removeFile (dir ++ [name]))).2 = h ∧ h.fs.locked dir = true := by
  obtain ⟨absolute, target, hlink⟩ := hlink
  simp only [Host.serve] at hlink ⊢
  cases hremove : h.fs.removeFile (dir ++ [name]) with
  | ok fs' =>
    rw [hremove] at hlink
    have hnone := (changed_of_removeFile hfolder hname hremove).entries_self
    cases hnone.symm.trans hlink
  | error fault =>
    rw [hremove] at hlink
    refine ⟨rfl, ?_⟩
    by_contra hunlocked
    obtain ⟨fs₁, hok⟩ := exists_removeFile hfolder hname hlink (by simpa using hunlocked)
    cases hremove.symm.trans hok

theorem run_atomicWrite (hfile : Plain file) (bytes : Bytes) :
    let tmp := dir ++ [tempName file h.pid]
    let h₁ := (h.serve (.removeFile tmp)).2
    (∀ fault, h₁.fs.writeFile tmp bytes = .error fault →
      (h.run (atomicWrite (dir ++ [file]) bytes)).2 = h₁) ∧
    ∀ fs₂, h₁.fs.writeFile tmp bytes = .ok fs₂ → Folder fs₂ dir →
      Within base fs₂ (h.run (atomicWrite (dir ++ [file]) bytes)).2.fs := by
  intro tmp h₁
  have hparent : (Path.parent (dir ++ [file])).getD [] = dir := by simp [Path.parent]
  have htemp : tempPathFor dir (dir ++ [file]) h.pid = tmp := by
    simp [tempPathFor, Path.fileName, tempName, tmp]
  have hmade : h.serve (.createDirAll dir) = (.ok (), h) := by
    simp only [Host.serve, createDirAll_of_isDir hfolder.isDir, Except.mapError]
  have hpid : h.serve .processId = (h.pid, h) := rfl
  rw [atomicWrite, hparent, Host.run_call_bind, hmade]
  dsimp only
  rw [Host.run_orIo_ok, Host.run_call_bind, hpid]
  dsimp only
  rw [htemp, Host.run_call_bind, Host.run_call_bind]
  refine ⟨fun fault hfault => ?_, fun fs₂ hwritten hfolder₂ => ?_⟩
  · have hserve : h₁.serve (.writeFile tmp bytes) = (.error (ioError fault), h₁) := by
      simp only [Host.serve, hfault, Host.update]
    rw [hserve]
    rfl
  · let h₂ : Host := { h₁ with fs := fs₂ }
    have hserve : h₁.serve (.writeFile tmp bytes) = (.ok (), h₂) := by
      simp only [Host.serve, hwritten, Host.update, h₂]
    rw [hserve]
    dsimp only
    rw [Host.run_orIo_ok, Host.run_call_bind]
    cases hpermissions : h₂.serve (.setPermissions tmp destFileMode) with
    | mk result h₃ =>
      obtain rfl : h₃ = h₂ := (congrArg Prod.snd hpermissions).symm
      cases result with
      | error e => exact .refl base fs₂
      | ok =>
        dsimp only
        rw [Host.run_orIo_ok, Host.run_call_bind]
        have hrename := within_serve_rename (h := h₂) hfolder₂ hbase (plain_tempName file h.pid) hfile
        cases hrenamed : h₂.serve (.rename tmp (dir ++ [file])) with
        | mk result h₄ =>
          rw [hrenamed] at hrename
          cases result with
          | ok => exact hrename
          | error e =>
            exact hrename.trans (within_serve_removeFile (hfolder₂.within hrename) hbase
              (plain_tempName file h.pid))

theorem within_atomicWrite (hfile : Plain file)
    (hstale : ∃ hash, (h.run (fileSha256 sha256 (dir ++ [file]))).1 = .ok hash ∧
      hash ≠ some (sha256Hex sha256 bytes))
    (hsafe : ∀ fs' path, ¬ Leaks sha256 h base dir file bytes fs' path) :
    Within base h.fs (h.run (atomicWrite (dir ++ [file]) bytes)).2.fs := by
  have htemp := plain_tempName file h.pid
  have hremoved := within_serve_removeFile hfolder hbase htemp
  obtain ⟨hfault, hok⟩ := run_atomicWrite hfolder hbase hfile bytes
  cases hwritten : (h.serve (.removeFile (dir ++ [tempName file h.pid]))).2.fs.writeFile
      (dir ++ [tempName file h.pid]) bytes with
  | error fault =>
    rw [hfault fault hwritten]
    exact hremoved
  | ok fs' =>
    obtain ⟨dir', name', htarget, hchanged⟩ := changed_of_writeFile hwritten
    suffices hstep : Within base h.fs fs' from hstep.trans (hok fs' hwritten (hfolder.within hstep))
    by_cases hlink : ∃ absolute target, (h.serve (.removeFile (dir ++ [tempName file h.pid]))).2.fs.entries
        (dir ++ [tempName file h.pid]) = some (.symlink absolute target)
    · -- the link has stayed, and is followed
      obtain ⟨hsame, hlocked⟩ := serve_removeFile_of_link hfolder htemp hlink
      rw [hsame] at hwritten hchanged hlink
      refine ⟨fun path hout => ?_, fun _ => hchanged.directory⟩
      by_contra hne
      exact hsafe fs' path ⟨hlocked, hlink, hstale, hwritten, hout, hne⟩
    · push Not at hlink
      cases writeTarget_of_not_link (hfolder.within hremoved) htemp hlink htarget
      exact hremoved.trans (hchanged.within (hbase.trans (List.prefix_append _ _)))

theorem within_removeIfPresent (hfile : Plain file) :
    Within base h.fs (h.run (removeIfPresent (dir ++ [file]))).2.fs := by
  have hremoved := within_serve_removeFile hfolder hbase hfile
  rw [removeIfPresent, Host.run_call_bind]
  cases hserve : h.serve (.removeFile (dir ++ [file])) with
  | mk result h₁ =>
    rw [hserve] at hremoved
    cases result with
    | ok => exact hremoved
    | error e => cases e <;> exact hremoved

theorem within_sync (hfile : Plain file)
    (hsafe : ∀ bytes fs' path, ¬ Leaks sha256 h base dir file bytes fs' path) (content : Option Bytes) :
    Within base h.fs (h.sync sha256 content (dir ++ [file])).2.fs := by
  have hsame := run_fileSha256 sha256 h (dir ++ [file])
  unfold Host.sync syncContent
  cases hread : h.run (fileSha256 sha256 (dir ++ [file])) with
  | mk result h₁ =>
    rw [hread] at hsame
    obtain rfl : h₁ = h := hsame
    cases result with
    | error e =>
      rw [Host.run_bind_error _ hread]
      exact .refl base h₁.fs
    | ok hash =>
      rw [Host.run_bind_ok _ hread]
      unfold decideAction
      cases content with
      | none =>
        dsimp only
        cases hash with
        | none => exact .refl base h₁.fs
        | some hash =>
          have hremoved := within_removeIfPresent hfolder hbase hfile
          exact (Host.run_bind_pure _ _).symm ▸ hremoved
      | some bytes =>
        dsimp only
        by_cases hhash : hash = some (sha256Hex sha256 bytes)
        · rw [if_pos hhash]
          exact .refl base h₁.fs
        · rw [if_neg hhash]
          have hstale : ∃ hash, (h₁.run (fileSha256 sha256 (dir ++ [file]))).1 = .ok hash ∧
              hash ≠ some (sha256Hex sha256 bytes) := ⟨hash, by rw [hread], hhash⟩
          have hwritten := within_atomicWrite hfolder hbase hfile hstale (hsafe bytes)
          exact (Host.run_bind_pure _ _).symm ▸ hwritten

theorem leak_shows (hfile : Plain file) {fs' : FileSystem} {path : Path}
    (hleak : Leaks sha256 h base dir file bytes fs' path) :
    (h.sync sha256 (some bytes) (dir ++ [file])).2.fs.entries path ≠ h.fs.entries path := by
  have htemp := plain_tempName file h.pid
  obtain ⟨absolute, target, hlink⟩ := hleak.link
  have hstays : (h.serve (.removeFile (dir ++ [tempName file h.pid]))).2 = h := by
    simp only [Host.serve, removeFile_of_locked hfolder htemp hlink hleak.locked, Host.update]
  obtain ⟨_, hok⟩ := run_atomicWrite hfolder hbase hfile bytes
  rw [hstays] at hok
  obtain ⟨_, _, _, hchanged⟩ := changed_of_writeFile hleak.written
  have hwritten := hok fs' hleak.written ⟨hfolder.names, hchanged.directory hfolder.directory⟩
  obtain ⟨hash, hread, hstale⟩ := hleak.stale
  have hsync : (h.sync sha256 (some bytes) (dir ++ [file])).2 =
      (h.run (atomicWrite (dir ++ [file]) bytes)).2 := by
    have hrun : h.run (fileSha256 sha256 (dir ++ [file])) = (.ok hash, h) :=
      Prod.ext hread (run_fileSha256 sha256 h _)
    unfold Host.sync syncContent
    rw [Host.run_bind_ok _ hrun, decideAction]
    dsimp only
    rw [if_neg hstale]
    exact Host.run_bind_pure _ _
  rw [hsync, hwritten.outside path hleak.outside]
  exact hleak.changed

end Folder

end Sync

section Confinement

variable {sha256 : Bytes → Bytes} {h : Host} {hostRoot : Path} {destPath file : String}
  {segs : List String}

/-- What confinement means for one host and one destination. -/
structure Confines (sha256 : Bytes → Bytes) (h : Host) (hostRoot : Path) (destPath : String) : Prop where
  result : ∀ p, (h.confine hostRoot destPath).1 = .ok p → ∃ base dir name,
    (h.confine hostRoot destPath).2.fs.canonicalize (destBase hostRoot) = .ok base ∧
      p = dir ++ [name] ∧ Folder (h.confine hostRoot destPath).2.fs dir ∧ base <+: dir ∧
        Text.endsWith destFileSuffix name = true
  files : ∀ p content base, (h.confine hostRoot destPath).1 = .ok p →
    (h.confine hostRoot destPath).2.fs.canonicalize (destBase hostRoot) = .ok base →
      ∀ path, ¬ base <+: path → ((h.confine hostRoot destPath).2.sync sha256 content p).2.fs.entries path =
        (h.confine hostRoot destPath).2.fs.entries path
  directories : ∀ dir, h.fs.entries dir = none →
    (h.confine hostRoot destPath).2.fs.entries dir = some .directory →
      (∃ base, (h.confine hostRoot destPath).2.fs.canonicalize (destBase hostRoot) = .ok base ∧
        base <+: dir) ∨
      ∃ front, front <+: destBase hostRoot ∧
        (h.confine hostRoot destPath).2.fs.canonicalize front = .ok dir

/-- Once the base is there, a directory of the destination would be made outside of it. -/
def EscapingDirectory (h : Host) (hostRoot : Path) (destPath : String) : Prop :=
  ∃ segs file base, Accepted destPath segs file ∧
    (h.fs.createDirAll (destBase hostRoot)).2.canonicalize (destBase hostRoot) = .ok base ∧
      Escapes (h.fs.createDirAll (destBase hostRoot)).2 (destBase hostRoot) base segs

/-- The destination is confined, and some content for it leaks through a link in its place. -/
def LeakingTemp (sha256 : Bytes → Bytes) (h : Host) (hostRoot : Path) (destPath : String) : Prop :=
  ∃ dir file base bytes fs' path, (h.confine hostRoot destPath).1 = .ok (dir ++ [file]) ∧
    (h.confine hostRoot destPath).2.fs.canonicalize (destBase hostRoot) = .ok base ∧
      Leaks sha256 (h.confine hostRoot destPath).2 base dir file bytes fs' path

theorem confine_fs (ha : Accepted destPath segs file) :
    (h.confine hostRoot destPath).2.fs = (h.fs.createDirAll (destBase hostRoot ++ segs)).2 := by
  cases hmade : h.fs.createDirAll (destBase hostRoot ++ segs) with
  | mk result fs₁ =>
    cases result with
    | error fault => rw [confine_of_error ha hmade]
    | ok =>
      obtain ⟨dir, base, _, _, _, hin, hout⟩ := confine_of_ok ha hmade
      by_cases hbase : base <+: dir
      · rw [hin hbase]
      · obtain ⟨e, he⟩ := hout hbase
        rw [he]

theorem confine_eq_ok {p : Path} (hok : (h.confine hostRoot destPath).1 = .ok p) :
    ∃ segs file dir base, Accepted destPath segs file ∧ p = dir ++ [file] ∧
      Folder (h.confine hostRoot destPath).2.fs dir ∧
        (h.confine hostRoot destPath).2.fs.canonicalize (destBase hostRoot) = .ok base ∧ base <+: dir := by
  by_cases haccepted : ∃ segs file, Accepted destPath segs file
  · obtain ⟨segs, file, ha⟩ := haccepted
    cases hmade : h.fs.createDirAll (destBase hostRoot ++ segs) with
    | mk result fs₁ =>
      cases result with
      | error fault =>
        rw [confine_of_error ha hmade] at hok
        cases hok
      | ok =>
        obtain ⟨dir, base, _, hfolder, hcanon, hin, hout⟩ := confine_of_ok ha hmade
        by_cases hbase : base <+: dir
        · rw [hin hbase] at hok ⊢
          cases hok
          exact ⟨segs, file, dir, base, ha, rfl, hfolder, hcanon, hbase⟩
        · obtain ⟨e, he⟩ := hout hbase
          rw [he] at hok
          cases hok
  · obtain ⟨e, he⟩ := confine_refused h hostRoot haccepted
    rw [he] at hok
    cases hok

theorem directories_of_safe (ha : Accepted destPath segs file)
    (hsafe : ¬ EscapingDirectory h hostRoot destPath) {dir : Path} (hnone : h.fs.entries dir = none)
    (hmade : (h.confine hostRoot destPath).2.fs.entries dir = some .directory) :
    (∃ base, (h.confine hostRoot destPath).2.fs.canonicalize (destBase hostRoot) = .ok base ∧
      base <+: dir) ∨
    ∃ front, front <+: destBase hostRoot ∧
      (h.confine hostRoot destPath).2.fs.canonicalize front = .ok dir := by
  rw [confine_fs ha] at hmade ⊢
  have hway : ∀ {fs' : FileSystem}, Extends (h.fs.createDirAll (destBase hostRoot)).2 fs' →
      ((h.fs.createDirAll (destBase hostRoot)).2.entries dir).isSome →
        ∃ front, front <+: destBase hostRoot ∧ fs'.canonicalize front = .ok dir := by
    intro fs' hextends hsome
    obtain ⟨front, hfront, hcanon⟩ := createDirAll_made hnone hsome
    exact ⟨front, hfront, hextends.canonicalize hcanon⟩
  cases hbase : h.fs.createDirAll (destBase hostRoot) with
  | mk result fs₀ =>
    rw [hbase] at hway
    cases result with
    | error fault =>
      obtain ⟨fault', herror⟩ := createDirAll_error_append hbase segs
      rw [herror] at hmade ⊢
      exact .inr (hway (.refl fs₀) (by rw [hmade]; rfl))
    | ok =>
      obtain ⟨base, hcanon, _⟩ := folder_of_isDir (isDir_of_createDirAll hbase)
      have hextends := extends_ensureAll fs₀ (destBase hostRoot) segs
      rw [(createDirAll_append hbase segs).1] at hmade ⊢
      cases hold : fs₀.entries dir with
      | some entry => exact .inr (hway hextends (by rw [hold]; rfl))
      | none =>
        refine .inl ⟨base, hextends.canonicalize hcanon, ?_⟩
        refine ensureAll_inside ha.names.1 (fun hescapes => hsafe ?_) hold (by rw [hmade]; rfl)
        refine ⟨segs, file, base, ha, ?_, ?_⟩
        · rw [hbase]
          exact hcanon
        · rw [hbase]
          exact hescapes

theorem not_escaping_of_confines (hconfines : Confines sha256 h hostRoot destPath) :
    ¬ EscapingDirectory h hostRoot destPath := by
  rintro ⟨segs, file, base, ha, hcanon, front, name, rest, dir, rfl, hescape⟩
  have hplain : Plain name := ha.names.1 name (by simp)
  obtain ⟨links, hreached⟩ := hescape.reached
  cases hbase : h.fs.createDirAll (destBase hostRoot) with
  | mk result fs₀ =>
    rw [hbase] at hcanon hescape hreached
    have hdir : fs₀.isDir (destBase hostRoot) = true :=
      isDir_of_isDir_append (isDir_iff.mpr ⟨links, dir, hreached, hescape.directory⟩)
    cases result with
    | error fault =>
      rw [not_isDir_of_createDirAll hbase] at hdir
      cases hdir
    | ok =>
      have hextends := extends_ensureAll fs₀ (destBase hostRoot) (front ++ name :: rest)
      have hold : h.fs.entries (dir ++ [name]) = none := by
        by_contra hsome
        have hkept := extends_createDirAll h.fs (destBase hostRoot) _ (Option.isSome_iff_ne_none.mpr hsome)
        rw [hbase, hescape.missing] at hkept
        exact hsome hkept.symm
      have hdirectories := hconfines.directories (dir ++ [name]) hold
      rw [confine_fs ha, (createDirAll_append hbase (front ++ name :: rest)).1] at hdirectories
      rcases hdirectories (ensureAll_escapes hplain hescape) with
        ⟨base', hcanon', hin⟩ | ⟨front', hfront', hcanon'⟩
      · obtain rfl : base = base' := by
          simpa using (hextends.canonicalize hcanon).symm.trans hcanon'
        rcases List.prefix_concat_iff.mp hin with heq | hin
        · have hthere := isSome_of_canonicalize hcanon
          rw [heq, hescape.missing] at hthere
          cases hthere
        · exact hescape.outside hin
      · -- what is on the way to the base was there when the base was
        obtain ⟨rest', hbasePath⟩ := hfront'
        rw [← hbasePath] at hdir
        obtain ⟨place, hplace, _⟩ := folder_of_isDir (isDir_of_isDir_append hdir)
        obtain rfl : place = dir ++ [name] := by
          simpa using (hextends.canonicalize hplace).symm.trans hcanon'
        have hthere := isSome_of_canonicalize hplace
        rw [hescape.missing] at hthere
        cases hthere

/--
Confinement holds for a host and a destination exactly if no directory of the destination escapes
through a link and no content leaks through a link that cannot be removed.
-/
theorem confinement_iff (sha256 : Bytes → Bytes) (h : Host) (hostRoot : Path) (destPath : String) :
    Confines sha256 h hostRoot destPath ↔
      ¬ EscapingDirectory h hostRoot destPath ∧ ¬ LeakingTemp sha256 h hostRoot destPath := by
  constructor
  · intro hconfines
    refine ⟨not_escaping_of_confines hconfines, ?_⟩
    rintro ⟨dir, file, base, bytes, fs', path, hok, hcanon, hleak⟩
    obtain ⟨segs, file', dir', base', ha, heq, hfolder, hcanon', hin⟩ := confine_eq_ok hok
    obtain ⟨rfl, hfile⟩ := List.append_inj' heq rfl
    obtain rfl : file = file' := List.singleton_inj.mp hfile
    obtain rfl : base = base' := by simpa using hcanon.symm.trans hcanon'
    exact leak_shows hfolder hin ha.names.2.1 hleak
      (hconfines.files _ (some bytes) base hok hcanon path hleak.outside)
  · rintro ⟨hdirectory, htemp⟩
    refine ⟨fun p hok => ?_, fun p content base hok hcanon path hout => ?_, fun dir hnone hmade => ?_⟩
    · obtain ⟨segs, file, dir, base, ha, heq, hfolder, hcanon, hin⟩ := confine_eq_ok hok
      exact ⟨base, dir, file, hcanon, heq, hfolder, hin, ha.names.2.2⟩
    · obtain ⟨segs, file, dir, base', ha, rfl, hfolder, hcanon', hin⟩ := confine_eq_ok hok
      obtain rfl : base = base' := by simpa using hcanon.symm.trans hcanon'
      refine (within_sync hfolder hin ha.names.2.1 (fun bytes fs' path hleak => ?_) content).outside path hout
      exact htemp ⟨dir, file, base, bytes, fs', path, hok, hcanon, hleak⟩
    · by_cases haccepted : ∃ segs file, Accepted destPath segs file
      · obtain ⟨segs, file, ha⟩ := haccepted
        exact directories_of_safe ha hdirectory hnone hmade
      · obtain ⟨e, he⟩ := confine_refused h hostRoot haccepted
        rw [he, hnone] at hmade
        cases hmade

end Confinement

section Escaping

/-- A directory of the base is a link to `/tmp`. -/
def linkedHost : Host where
  fs := .ofEntries [([], .directory), (["etc"], .directory), (["etc", "k0s"], .directory),
    (["tmp"], .directory), (["etc", "k0s", "link"], .symlink true ["tmp"])] [] (by decide) (by decide)
  pid := 7

/-- The base is locked, and the name of the temporary file is a link to a file outside of it. -/
def lockedHost : Host where
  fs := .ofEntries [([], .directory), (["etc"], .directory), (["etc", "k0s"], .directory),
    (["victim"], .file []), (["etc", "k0s", "kata.toml.5spot-tmp.7"], .symlink true ["victim"])]
    [["etc", "k0s"]] (by decide) (by decide)
  pid := 7

/--
On the first host a directory is made in `/tmp` although the destination is refused; on the second the
destination is confined and a file outside of the base is overwritten.
-/
theorem confinement_fails :
    (linkedHost.fs.entries ["tmp", "sub"] = none ∧
      (linkedHost.confine [] "/etc/k0s/link/sub/kata.toml").1.toOption = none ∧
      (linkedHost.confine [] "/etc/k0s/link/sub/kata.toml").2.fs.entries ["tmp", "sub"] =
        some .directory ∧
      ∀ sha256, ¬ Confines sha256 linkedHost [] "/etc/k0s/link/sub/kata.toml") ∧
    ((lockedHost.confine [] "/etc/k0s/kata.toml").1 = .ok ["etc", "k0s", "kata.toml"] ∧
      ((lockedHost.confine [] "/etc/k0s/kata.toml").2.sync id (some [42])
        ["etc", "k0s", "kata.toml"]).2.fs.entries ["victim"] = some (.file [42]) ∧
      ¬ Confines id lockedHost [] "/etc/k0s/kata.toml") := by
  refine ⟨⟨by decide +kernel, by decide +kernel, by decide +kernel, fun sha256 hconfines => ?_⟩, ?_⟩
  · refine not_escaping_of_confines hconfines ⟨["link", "sub"], "kata.toml", ["etc", "k0s"],
      ⟨by decide +kernel, by decide +kernel, by decide +kernel, by decide +kernel⟩, by decide +kernel,
      ["link"], "sub", [], ["tmp"], rfl, ⟨39, by decide +kernel⟩, by decide +kernel, by decide +kernel,
      by decide +kernel, by decide⟩
  · have hresult : (lockedHost.confine [] "/etc/k0s/kata.toml").1 = .ok ["etc", "k0s", "kata.toml"] ∧
        (lockedHost.confine [] "/etc/k0s/kata.toml").2.fs.canonicalize (destBase []) =
          .ok ["etc", "k0s"] ∧
        (lockedHost.confine [] "/etc/k0s/kata.toml").2.fs.entries ["victim"] = some (.file []) ∧
        ((lockedHost.confine [] "/etc/k0s/kata.toml").2.sync id (some [42])
          ["etc", "k0s", "kata.toml"]).2.fs.entries ["victim"] = some (.file [42]) := by
      decide +kernel
    obtain ⟨hok, hcanon, hbefore, hafter⟩ := hresult
    refine ⟨hok, hafter, fun hconfines => ?_⟩
    have hsame := hconfines.files _ (some [42]) _ hok hcanon ["victim"] (by decide)
    rw [hbefore, hafter] at hsame
    cases hsame

end Escaping

end FiveSpot.Kata
