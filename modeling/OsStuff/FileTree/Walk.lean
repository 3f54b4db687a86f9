import OsStuff.Library.KeyedTree
import OsStuff.Library.Trace

/-!
# `2_file_tree/src/main.c`

`walk` over a finite tree of directories.  What the kernel answers is a parameter:
the directory tree with its listings and the resolution of names, and which calls
fail.
-/

namespace OsStuff
namespace FileTree

open Library

abbrev Path := List String

/-- A file with its inode number; the files that are not directories have no
entries. -/
abbrev File := KeyedTree String Nat

def S_ISDIR : File → Bool
  | .leaf _ => false
  | .branch _ _ => true

/-- The entries that a walk goes down to. -/
def isEntry (name : String) : Bool :=
  name != "." && name != ".."

/-- The names that files can have in a directory. -/
def FileName (name : String) : Prop :=
  isEntry name ∧ name ≠ "" ∧ '/' ∉ name.toList

def ENOENT : Nat := 2
def EIO : Nat := 5
def EACCES : Nat := 13
def ENOTDIR : Nat := 20
def ENAMETOOLONG : Nat := 36
def ELOOP : Nat := 40
def EOVERFLOW : Nat := 75

/-- A directory tree.  `readdir` lists a directory, with `.` and `..` somewhere among
the entries; `resolve` finds the file for a name used in a directory, or fails with
an error. -/
structure FileSystem where
  root : File
  readdir : Path → List String
  resolve : Path → String → Except Nat Path
  valid : root.Valid FileName
  lists : ∀ path ino entries, root.get? path = some (.branch ino entries) →
    (readdir path).filter isEntry = entries.keys
  resolve_exists : ∀ cwd name path, resolve cwd name = .ok path →
    (root.get? path).isSome
  resolve_empty : ∀ cwd, resolve cwd "" = .error ENOENT
  resolve_dot : ∀ cwd ino entries, root.get? cwd = some (.branch ino entries) →
    resolve cwd "." = .ok cwd
  resolve_dotdot : ∀ cwd ino entries, root.get? cwd = some (.branch ino entries) →
    resolve cwd ".." = .ok cwd.dropLast
  resolve_entry : ∀ cwd name ino entries, FileName name →
    root.get? cwd = some (.branch ino entries) →
      resolve cwd name = if (root.get? (cwd ++ [name])).isSome then .ok (cwd ++ [name])
        else .error ENOENT

/-- Which calls fail, by the number of the call and the file it is about. -/
structure Failures where
  lstat : Nat → Path → Option Nat
  chdir : Nat → Path → Bool
  opendir : Nat → Path → Bool

inductive CallKind
  | lstat
  | chdir
  | opendir
  | closedir
  deriving DecidableEq, Repr

/-- A call of the system, with the offset of the `walk` that makes it. -/
structure Call where
  kind : CallKind
  offset : Nat
  succeeded : Bool
  deriving DecidableEq, Repr

inductive Line
  | file (cnt : Nat) (name : String) (ino : Nat)
  | message (text : String)
  deriving DecidableEq, Repr

/-- The text that `printfname` prints. -/
def printfname (cnt : Nat) (name : String) (ino : Nat) : String :=
  String.join (List.replicate ((cnt - 2) / 2) "| ") ++ (if cnt ≠ 0 then "└─" else "") ++
    name ++ " [ino=" ++ toString ino ++ "]\n"

def Line.text : Line → String
  | .file cnt name ino => printfname cnt name ino
  | .message text => text

structure Process where
  cwd : Path
  out : List Line
  log : List Call
  deriving DecidableEq, Repr

def Process.print (p : Process) (lines : List Line) : Process :=
  { p with out := p.out ++ lines }

def Process.call (p : Process) (kind : CallKind) (offset : Nat) (succeeded : Bool) :
    Process :=
  { p with log := p.log ++ [⟨kind, offset, succeeded⟩] }

/-- The streams that are open after the calls. -/
def openStreams (log : List Call) : Int :=
  log.countP (fun call => call.kind = .opendir ∧ call.succeeded) -
    log.countP (fun call => call.kind = .closedir ∧ call.succeeded)

def lstatText (errno : Nat) : List Line :=
  .message "Ошибка вызова lstat: " ::
    if errno = EACCES then [.message "нет доступа к директории\n"]
    else if errno = EIO then [.message "ошибка чтения из файловой системы\n"]
    else if errno = ELOOP then [.message "произошло зацикливание символьной ссылки\n"]
    else if errno = ENAMETOOLONG then [.message "слишком длинное имя\n"]
    else if errno = ENOTDIR then [.message "не директория\n"]
    else if errno = ENOENT then
      [.message "директории не существует или передана пустая строка\n"]
    else if errno = EOVERFLOW then [.message "переполнение буфера\n"]
    else []

def chdirText (nextf : String) : List Line :=
  [.message ("Нет доступа к директории " ++ nextf ++ "\n")]

def opendirText (nextf : String) : List Line :=
  [.message ("Ошибка при открытии директории " ++ nextf ++ "\n")]

variable (fs : FileSystem) (failures : Failures)

/-- `lstat`, which does not follow a symbolic link. -/
def lstat (name : String) (offset : Nat) (p : Process) : Except Nat File × Process :=
  let result : Except Nat File :=
    match fs.resolve p.cwd name with
    | .error errno => .error errno
    | .ok path =>
        match failures.lstat p.log.length path, fs.root.get? path with
        | some errno, _ => .error errno
        | none, some file => .ok file
        | none, none => .error ENOENT
  (result, p.call .lstat offset result.toBool)

/-- `chdir` to a directory.  The result is whether it succeeds. -/
def chdir (name : String) (offset : Nat) (p : Process) : Bool × Process :=
  match fs.resolve p.cwd name with
  | .error _ => (false, p.call .chdir offset false)
  | .ok path =>
      if failures.chdir p.log.length path then (false, p.call .chdir offset false)
      else (true, { p.call .chdir offset true with cwd := path })

/-- `opendir(".")`; the names that `readdir` delivers from the stream. -/
def opendir (offset : Nat) (p : Process) : Option (List String) × Process :=
  if failures.opendir p.log.length p.cwd then (none, p.call .opendir offset false)
  else (some (fs.readdir p.cwd), p.call .opendir offset true)

/-- The loop of `walk`, which calls `walk` for an entry.  It is left after the next
`readdir` once the result is not zero. -/
def readEntries (walk : String → Process → Option (Int × Process)) :
    List String → Int → Process → Option (Int × Process)
  | [], ret, p => some (ret, p)
  | name :: rest, ret, p =>
      if ret = 0 then
        if isEntry name then
          (walk name p).bind fun (ret, p) => readEntries walk rest ret p
        else readEntries walk rest ret p
      else some (ret, p)

/-- `walk`; the fuel bounds the depth of the recursion. -/
def walk : Nat → String → Nat → Process → Option (Int × Process)
  | 0, _, _, _ => none
  | fuel + 1, nextf, offset, p =>
      match lstat fs failures nextf offset p with
      | (.error errno, p) => some (errno, p.print (lstatText errno))
      | (.ok statbuf, p) =>
          let p := p.print [.file offset nextf statbuf.data]
          if S_ISDIR statbuf = false then some (0, p)
          else
            match chdir fs failures nextf offset p with
            | (false, p) => some (0, p.print (chdirText nextf))
            | (true, p) =>
                match opendir fs failures offset p with
                | (none, p) => some (-1, p.print (opendirText nextf))
                | (some names, p) =>
                    -- the stream is not closed, and the result of `chdir` not looked at
                    (readEntries (fun name p => walk fuel name (offset + 2) p) names 0 p).map
                      fun (ret, p) => (ret, (chdir fs failures ".." offset p).2)

/-- `ftw` -/
def ftw (fuel : Nat) (path : String) (p : Process) : Option (Int × Process) :=
  walk fs failures fuel path 0 p

section Directories

variable {fs : FileSystem} {cwd path : Path} {name : String}

def IsDir (fs : FileSystem) (path : Path) : Prop :=
  ∃ ino entries, fs.root.get? path = some (.branch ino entries)

theorem IsDir.resolve_dot (hdir : IsDir fs cwd) : fs.resolve cwd "." = .ok cwd := by
  obtain ⟨ino, entries, hget⟩ := hdir
  exact fs.resolve_dot cwd ino entries hget

theorem IsDir.resolve_dotdot (hdir : IsDir fs cwd) :
    fs.resolve cwd ".." = .ok cwd.dropLast := by
  obtain ⟨ino, entries, hget⟩ := hdir
  exact fs.resolve_dotdot cwd ino entries hget

/-- Entries are found in the directory itself. -/
theorem IsDir.eq_of_resolve (hdir : IsDir fs cwd) (hname : FileName name)
    (hresolve : fs.resolve cwd name = .ok path) : path = cwd ++ [name] := by
  obtain ⟨ino, entries, hget⟩ := hdir
  rw [fs.resolve_entry cwd name ino entries hname hget] at hresolve
  split at hresolve
  · exact (Except.ok.inj hresolve).symm
  · cases hresolve

theorem IsDir.resolve_entry (hdir : IsDir fs cwd) (hname : FileName name) {file : File}
    (hget : fs.root.get? (cwd ++ [name]) = some file) :
    fs.resolve cwd name = .ok (cwd ++ [name]) := by
  obtain ⟨ino, entries, hcwd⟩ := hdir
  rw [fs.resolve_entry cwd name ino entries hname hcwd, hget]
  rfl

theorem isDir_of_prefix {front back : Path} (hdir : IsDir fs (front ++ back)) :
    IsDir fs front := by
  obtain ⟨ino, entries, hget⟩ := hdir
  rw [KeyedTree.get?_append] at hget
  obtain ⟨file, hfront, hback⟩ := Option.bind_eq_some_iff.mp hget
  cases file with
  | leaf ino' => cases back <;> cases hback
  | branch ino' entries' => exact ⟨ino', entries', hfront⟩

theorem IsDir.dropLast (hdir : IsDir fs path) : IsDir fs path.dropLast := by
  rcases List.eq_nil_or_concat path with rfl | ⟨front, last, rfl⟩
  · exact hdir
  · rw [List.concat_eq_append] at hdir ⊢
    rw [List.dropLast_concat]
    exact isDir_of_prefix hdir

theorem fileName_of_entry (hdir : IsDir fs cwd) (hmem : name ∈ fs.readdir cwd)
    (hentry : isEntry name) : FileName name := by
  obtain ⟨ino, entries, hget⟩ := hdir
  have hvalid : entries.Valid FileName := (fs.valid.get? hget).1
  have hkey : name ∈ (fs.readdir cwd).filter isEntry := List.mem_filter.mpr ⟨hmem, hentry⟩
  rw [fs.lists cwd ino entries hget] at hkey
  exact hvalid.of_mem_keys hkey

end Directories

/-! ### A file system for a tree -/

/-- The names in a directory, `.` and `..` first. -/
def listing (root : File) (path : Path) : List String :=
  match root.get? path with
  | some (.branch _ entries) => "." :: ".." :: entries.keys
  | _ => []

def target (cwd : Path) (name : String) : Path :=
  if name = "." then cwd
  else if name = ".." then cwd.dropLast
  else cwd ++ [name]

/-- The resolution of names with one component. -/
def resolveIn (root : File) (cwd : Path) (name : String) : Except Nat Path :=
  if name = "" then .error ENOENT
  else if (root.get? (target cwd name)).isSome then .ok (target cwd name)
  else .error ENOENT

variable {root : File} {cwd path : Path} {name : String} {ino : Nat}
  {entries : Branches String Nat}

theorem listing_lists (hvalid : root.Valid FileName)
    (hget : root.get? path = some (.branch ino entries)) :
    (listing root path).filter isEntry = entries.keys := by
  have hentries : entries.Valid FileName := (hvalid.get? hget).1
  have hkeys : entries.keys.filter isEntry = entries.keys :=
    List.filter_eq_self.mpr fun key hkey => (hentries.of_mem_keys hkey).1
  rw [listing, hget]
  exact hkeys

theorem resolveIn_of_exists (hname : name ≠ "")
    (hexists : (root.get? (target cwd name)).isSome) :
    resolveIn root cwd name = .ok (target cwd name) := by
  rw [resolveIn, if_neg hname, if_pos hexists]

theorem resolveIn_exists (hresolve : resolveIn root cwd name = .ok path) :
    (root.get? path).isSome := by
  rw [resolveIn] at hresolve
  split at hresolve
  · cases hresolve
  · split at hresolve
    · rename_i hexists
      rwa [← Except.ok.inj hresolve]
    · cases hresolve

theorem resolveIn_dot (hget : root.get? cwd = some (.branch ino entries)) :
    resolveIn root cwd "." = .ok cwd :=
  resolveIn_of_exists (by decide) (by rw [target, if_pos rfl, hget]; rfl)

theorem resolveIn_dotdot (hget : root.get? cwd = some (.branch ino entries)) :
    resolveIn root cwd ".." = .ok cwd.dropLast := by
  apply resolveIn_of_exists (by decide)
  change (root.get? cwd.dropLast).isSome
  rcases List.eq_nil_or_concat cwd with rfl | ⟨front, last, rfl⟩
  · rw [List.dropLast_nil, hget]
    rfl
  · rw [List.concat_eq_append, KeyedTree.get?_append] at hget
    obtain ⟨file, hfront, -⟩ := Option.bind_eq_some_iff.mp hget
    rw [List.concat_eq_append, List.dropLast_concat, hfront]
    rfl

theorem resolveIn_entry (hname : FileName name) :
    resolveIn root cwd name = if (root.get? (cwd ++ [name])).isSome then .ok (cwd ++ [name])
      else .error ENOENT := by
  have hentry := hname.1
  rw [isEntry, Bool.and_eq_true, bne_iff_ne, bne_iff_ne] at hentry
  rw [resolveIn, if_neg hname.2.1, target, if_neg hentry.1, if_neg hentry.2]

/-- The file system with the files of a tree. -/
def FileSystem.ofTree (root : File) (hvalid : root.Valid FileName) : FileSystem where
  root := root
  readdir := listing root
  resolve := resolveIn root
  valid := hvalid
  lists _ _ _ := listing_lists hvalid
  resolve_exists _ _ _ := resolveIn_exists
  resolve_empty _ := rfl
  resolve_dot _ _ _ := resolveIn_dot
  resolve_dotdot _ _ _ := resolveIn_dotdot
  resolve_entry _ _ _ _ hname _ := resolveIn_entry hname

end FileTree
end OsStuff
