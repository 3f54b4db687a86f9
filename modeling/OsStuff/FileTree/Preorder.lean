import OsStuff.FileTree.CleanUp

/-!
# The walk is a complete preorder

Here `lstat` and `opendir` succeed, and `chdir` is refused for some directories of the
tree.
-/

namespace OsStuff
namespace FileTree

open Library

/-- `chdir` is refused for the directories `denied`. -/
def denying (denied : Path → Bool) : Failures where
  lstat _ _ := none
  chdir _ path := denied path
  opendir _ _ := false

/-- What the walk of the tree at `base` prints for a file in it.  The name of the
tree's root is the one that the walk was started with. -/
def lines (start : String) (denied : Path → Bool) (base : Path) :
    Path × File → List Line
  | (path, file) =>
      let name := path.getLast?.getD start
      .file (2 * path.length) name file.data ::
        if S_ISDIR file && denied (base ++ path) then chdirText name else []

/-- The files that are not below a directory that is refused are printed once each, a
directory before the files in it and the entries of a directory in the order of
`readdir`; the result is 0 and the current directory is as before. -/
structure CompletePreorder (start : String) (denied : Path → Bool) (base : Path)
    (file : File) (p : Process) (ret : Int) (p' : Process) : Prop where
  ret : ret = 0
  cwd : p'.cwd = p.cwd
  printed : ∃ visited : List (Path × File),
    (∀ path node, (path, node) ∈ visited ↔ file.get? path = some node ∧
      ∀ front, front <+: path → front ≠ path → denied (base ++ front) = false) ∧
    (visited.map Prod.fst).Nodup ∧
    visited.Pairwise (fun a b => file.Before a.1 b.1) ∧
    p'.out = p.out ++ visited.flatMap (lines start denied base)

variable {fs : FileSystem} {denied : Path → Bool} {start nextf : String} {base path : Path}
  {file : File} {p : Process}

/-- The loop over the entries of a directory, when the walks of the entries print them
and come back. -/
theorem readEntries_preorder {walk : String → Process → Option (Int × Process)} {here : Path}
    {cut : Path → Bool} {print : Path × File → List Line} :
    ∀ {names : List String} {rest : Branches String Nat} {p : Process},
      rest.Valid FileName → names.filter isEntry = rest.keys → p.cwd = here →
      (∀ name child (p : Process), rest.find? name = some child → p.cwd = here →
        ∃ p', walk name p = some (0, p') ∧ p'.cwd = here ∧
          p'.out = p.out ++ (child.preorder cut (path ++ [name])).flatMap print) →
      ∃ p', readEntries walk names 0 p = some (0, p') ∧ p'.cwd = here ∧
        p'.out = p.out ++ (rest.preorder cut path).flatMap print
  | [], .nil, p, _, _, hcwd, _ => ⟨p, rfl, hcwd, (List.append_nil _).symm⟩
  | name :: names, rest, p, hvalid, hkeys, hcwd, hwalk => by
      rw [readEntries, if_pos rfl]
      -- The names . and .. are skipped, as the source does with strcmp.
      by_cases hentry : isEntry name
      · rw [if_pos hentry]
        rw [List.filter_cons_of_pos hentry] at hkeys
        cases rest with
        | nil => cases hkeys
        | cons key child rest =>
            obtain ⟨rfl, hkeys'⟩ := List.cons.inj hkeys
            obtain ⟨-, hnone, -, hrest⟩ := hvalid
            have hfind : (Branches.cons name child rest).find? name = some child := by
              rw [Branches.find?, if_pos rfl]
            obtain ⟨p', hchild, hcwd', hout⟩ := hwalk name child p hfind hcwd
            have hwalk' : ∀ name' child' (q : Process), rest.find? name' = some child' →
                q.cwd = here → ∃ p', walk name' q = some (0, p') ∧ p'.cwd = here ∧
                  p'.out = q.out ++ (child'.preorder cut (path ++ [name'])).flatMap print := by
              intro name' child' q hfind' hq
              -- Names in a directory are different, so the walks of the others are not
              -- affected.
              have hne : name ≠ name' := by
                rintro rfl
                rw [hnone] at hfind'
                cases hfind'
              exact hwalk name' child' q (by rwa [Branches.find?, if_neg hne]) hq
            obtain ⟨p'', hread, hcwd'', hout'⟩ :=
              readEntries_preorder hrest hkeys' hcwd' hwalk'
            refine ⟨p'', by rw [hchild]; exact hread, hcwd'', ?_⟩
            rw [hout', hout, Branches.preorder, List.flatMap_append, List.append_assoc]
      · rw [if_neg hentry]
        rw [List.filter_cons_of_neg hentry] at hkeys
        exact readEntries_preorder hvalid hkeys hcwd hwalk

/-- Where a walk of the file at `path` ends that begins in `cwd`. -/
def back (denied : Path → Bool) (cwd path : Path) (file : File) : Path :=
  if S_ISDIR file && !denied path then
    if denied path.dropLast then path else path.dropLast
  else cwd

/-- Entries come back to the directory. -/
theorem back_entry (hdenied : denied path = false) :
    back denied path (path ++ [nextf]) file = path := by
  rw [back, List.dropLast_concat, hdenied]
  split
  · rfl
  · rfl

theorem walk_leaf {fuel offset ino : Nat} (hresolve : fs.resolve p.cwd nextf = .ok path)
    (hget : fs.root.get? path = some (.leaf ino)) :
    walk fs (denying denied) (fuel + 1) nextf offset p =
      some (0, (p.call .lstat offset true).print [.file offset nextf ino]) := by
  rw [walk, lstat_of_exists hresolve rfl hget]
  rfl

theorem walk_denied {fuel offset ino : Nat} {entries : Branches String Nat}
    (hresolve : fs.resolve p.cwd nextf = .ok path)
    (hget : fs.root.get? path = some (.branch ino entries)) (hdenied : denied path = true) :
    walk fs (denying denied) (fuel + 1) nextf offset p =
      some (0, (((p.call .lstat offset true).print [.file offset nextf ino]).call
        .chdir offset false).print (chdirText nextf)) := by
  rw [walk_of_directory hresolve rfl hget]
  exact if_pos hdenied

/-- The process behind `opendir`. -/
def entered (nextf : String) (offset ino : Nat) (path : Path) (p : Process) : Process where
  cwd := path
  out := p.out ++ [.file offset nextf ino]
  log := p.log ++ [⟨.lstat, offset, true⟩] ++ [⟨.chdir, offset, true⟩] ++
    [⟨.opendir, offset, true⟩]

theorem walk_entered {fuel offset ino : Nat} {entries : Branches String Nat}
    (hresolve : fs.resolve p.cwd nextf = .ok path)
    (hget : fs.root.get? path = some (.branch ino entries)) (hdenied : denied path = false) :
    walk fs (denying denied) (fuel + 1) nextf offset p =
      (readEntries (fun name p => walk fs (denying denied) fuel name (offset + 2) p)
        (fs.readdir path) 0 (entered nextf offset ino path p)).map
          fun (ret, p) => (ret, (chdir fs (denying denied) ".." offset p).2) := by
  rw [walk_of_directory hresolve rfl hget]
  refine (if_neg ?_).trans (if_neg Bool.false_ne_true)
  rw [Bool.not_eq_true]
  exact hdenied

/-- The way back from a directory. -/
theorem chdir_back {offset : Nat} (hdir : IsDir fs p.cwd) :
    (chdir fs (denying denied) ".." offset p).2.cwd =
      if denied p.cwd.dropLast then p.cwd else p.cwd.dropLast := by
  rw [chdir_of_resolve hdir.resolve_dotdot]
  by_cases hdenied : denied p.cwd.dropLast = true
  · have hrefused : (denying denied).chdir p.log.length p.cwd.dropLast = true := hdenied
    rw [if_pos hrefused, if_pos hdenied]
    rfl
  · have hallowed : ¬ (denying denied).chdir p.log.length p.cwd.dropLast = true := hdenied
    rw [if_neg hallowed, if_neg hdenied]

theorem chdir_out {offset : Nat} :
    (chdir fs (denying denied) nextf offset p).2.out = p.out := by
  rw [chdir]
  split
  · rfl
  · split
    · rfl
    · rfl

/-- The walk of the file at `base ++ rel`.  The induction is on the fuel, which the
height of the file bounds. -/
theorem walk_preorder (denied : Path → Bool) {fuel : Nat} {rel : Path}
    (hresolve : fs.resolve p.cwd nextf = .ok (base ++ rel))
    (hget : fs.root.get? (base ++ rel) = some file) (hname : rel.getLast?.getD start = nextf)
    (hfuel : file.height ≤ fuel) :
    ∃ p', walk fs (denying denied) (fuel + 1) nextf (2 * rel.length) p = some (0, p') ∧
      p'.cwd = back denied p.cwd (base ++ rel) file ∧
      p'.out = p.out ++ (file.preorder (fun path => denied (base ++ path)) rel).flatMap
        (lines start denied base) := by
  induction fuel generalizing nextf rel file p with
  | zero =>
      cases file with
      | leaf ino =>
          refine ⟨_, walk_leaf hresolve hget, rfl, ?_⟩
          simp [KeyedTree.preorder, lines, hname, Process.print, Process.call, S_ISDIR,
            KeyedTree.data]
      | branch ino entries => exact absurd hfuel (Nat.not_succ_le_zero _)
  | succ fuel ih =>
      cases file with
      | leaf ino =>
          refine ⟨_, walk_leaf hresolve hget, rfl, ?_⟩
          simp [KeyedTree.preorder, lines, hname, Process.print, Process.call, S_ISDIR,
            KeyedTree.data]
      | branch ino entries =>
          cases hdenied : denied (base ++ rel) with
          | true =>
              refine ⟨_, walk_denied hresolve hget hdenied, ?_, ?_⟩
              · rw [back, hdenied]
                rfl
              · simp [KeyedTree.preorder, lines, hname, hdenied, Process.print, Process.call,
                  S_ISDIR, KeyedTree.data]
          | false =>
              have hentries : entries.Valid FileName := (fs.valid.get? hget).1
              have hdir : IsDir fs (base ++ rel) := ⟨ino, entries, hget⟩
              -- The induction hypothesis for each entry, which is walked from the directory
              -- with the offset two larger.
              have hwalk : ∀ name child (q : Process), entries.find? name = some child →
                  q.cwd = base ++ rel → ∃ q', walk fs (denying denied) (fuel + 1) name
                    (2 * rel.length + 2) q = some (0, q') ∧ q'.cwd = base ++ rel ∧
                      q'.out = q.out ++ (child.preorder (fun path => denied (base ++ path))
                        (rel ++ [name])).flatMap (lines start denied base) := by
                intro name child q hfind hq
                have hchild : fs.root.get? (base ++ (rel ++ [name])) = some child := by
                  rw [← List.append_assoc, KeyedTree.get?_append, hget, Option.bind_some,
                    KeyedTree.get?_branch, hfind, Option.bind_some, KeyedTree.get?_nil]
                have hresolve' : fs.resolve q.cwd name = .ok (base ++ (rel ++ [name])) := by
                  rw [hq, ← List.append_assoc]
                  apply hdir.resolve_entry (hentries.find? hfind).1
                  rw [List.append_assoc, hchild]
                have hheight : child.height ≤ fuel :=
                  Nat.le_of_succ_le_succ
                    (Nat.le_trans (Nat.succ_le_succ (Branches.height_le_of_find? hfind)) hfuel)
                obtain ⟨q', hreturns, hcwd, hout⟩ :=
                  ih hresolve' hchild (by simp) hheight
                refine ⟨q', by simpa [Nat.mul_add] using hreturns, ?_, hout⟩
                rw [hcwd, hq, ← List.append_assoc]
                exact back_entry hdenied
              obtain ⟨p', hread, hcwd, hout⟩ := readEntries_preorder hentries
                (fs.lists _ ino entries hget)
                (rfl : (entered nextf (2 * rel.length) ino (base ++ rel) p).cwd = _) hwalk
              refine ⟨_, by rw [walk_entered hresolve hget hdenied, hread]; rfl, ?_, ?_⟩
              · rw [chdir_back (hcwd ▸ hdir), hcwd, back, hdenied]
                rfl
              · rw [chdir_out, hout, KeyedTree.preorder, if_neg (by simp [hdenied])]
                simp [entered, lines, hname, hdenied, KeyedTree.data]

/-! ### The result -/

/-- The kinds of start names with one component. -/
theorem start_cases (hsingle : '/' ∉ start.toList) :
    start = "" ∨ start = "." ∨ start = ".." ∨ FileName start := by
  by_cases hempty : start = ""
  · exact Or.inl hempty
  · by_cases hdot : start = "."
    · exact Or.inr (Or.inl hdot)
    · by_cases hdotdot : start = ".."
      · exact Or.inr (Or.inr (Or.inl hdotdot))
      · refine Or.inr (Or.inr (Or.inr ⟨?_, hempty, hsingle⟩))
        simp [isEntry, hdot, hdotdot]

/-- Behind a directory that is entered comes the one above it. -/
theorem back_of_entered {cwd : Path} (hfile : S_ISDIR file = true)
    (hdenied : denied base = false) (hinside : ∀ path, denied path = true → base <+: path) :
    back denied cwd base file = base.dropLast := by
  rw [back, hfile, hdenied]
  refine (if_pos rfl).trans (if_neg fun habove => ?_)
  have hle := (hinside _ habove).length_le
  have hempty : base = [] := List.length_eq_zero_iff.mp (by
    rw [List.length_dropLast] at hle
    omega)
  rw [hempty, List.dropLast_nil, ← hempty, hdenied] at habove
  cases habove

theorem back_of_denied {cwd : Path} (hdenied : denied base = true) :
    back denied cwd base file = cwd := by
  rw [back, hdenied, Bool.not_true, Bool.and_false]
  rfl

/-- The walk comes back for the name of an entry, in the root directory, and when it
does not enter the directory. -/
theorem back_eq_iff (hdir : IsDir fs p.cwd) (hsingle : '/' ∉ start.toList)
    (hresolve : fs.resolve p.cwd start = .ok base) (hget : fs.root.get? base = some file)
    (hinside : ∀ path, denied path = true → base <+: path) :
    back denied p.cwd base file = p.cwd ↔
      (start ≠ "." ∧ start ≠ "..") ∨ p.cwd = [] ∨ denied base = true := by
  have hfile : IsDir fs base → S_ISDIR file = true := by
    rintro ⟨ino, entries, hbase⟩
    rw [hget, Option.some.injEq] at hbase
    rw [hbase]
    rfl
  -- `.` and `..`: the way back leads above the current directory, if there is one
  have hdots : ¬ (start ≠ "." ∧ start ≠ "..") → IsDir fs base →
      (base.dropLast = p.cwd ↔ p.cwd = []) → (back denied p.cwd base file = p.cwd ↔
        (start ≠ "." ∧ start ≠ "..") ∨ p.cwd = [] ∨ denied base = true) := by
    intro hstart hbase hback
    rw [or_iff_right hstart]
    cases hdenied : denied base with
    | true => exact iff_of_true (back_of_denied hdenied) (Or.inr rfl)
    | false =>
        rw [back_of_entered (hfile hbase) hdenied hinside, hback]
        simp
  rcases start_cases hsingle with rfl | rfl | rfl | hname
  · rw [fs.resolve_empty] at hresolve
    cases hresolve
  · rw [hdir.resolve_dot] at hresolve
    obtain rfl := Except.ok.inj hresolve
    apply hdots (by simp) hdir
    constructor
    · intro heq
      have hlength := congrArg List.length heq
      rw [List.length_dropLast] at hlength
      exact List.length_eq_zero_iff.mp (by omega)
    · intro hempty
      rw [hempty, List.dropLast_nil]
  · rw [hdir.resolve_dotdot] at hresolve
    obtain rfl := Except.ok.inj hresolve
    apply hdots (by simp) hdir.dropLast
    constructor
    · intro heq
      have hlength := congrArg List.length heq
      rw [List.length_dropLast, List.length_dropLast] at hlength
      exact List.length_eq_zero_iff.mp (by omega)
    · intro hempty
      rw [hempty, List.dropLast_nil, List.dropLast_nil]
  · have hentry := hname.1
    rw [isEntry, Bool.and_eq_true, bne_iff_ne, bne_iff_ne] at hentry
    refine iff_of_true ?_ (Or.inl hentry)
    obtain rfl := hdir.eq_of_resolve hname hresolve
    rw [back, List.dropLast_concat]
    split
    · refine if_neg fun habove => ?_
      have hle := (hinside _ habove).length_le
      rw [List.length_append, List.length_singleton] at hle
      omega
    · rfl

/-- The walk returns and is a complete preorder if and only if the start name is not
one of `.` and `..`, or the current directory is the root directory, or `chdir` to the
start is refused.  (Only files of the tree at the start are refused.) -/
theorem complete_preorder_iff (hdir : IsDir fs p.cwd) (hsingle : '/' ∉ start.toList)
    (hresolve : fs.resolve p.cwd start = .ok base) (hget : fs.root.get? base = some file)
    (hinside : ∀ path, denied path = true → base <+: path) :
    ∃ ret p', (∀ fuel, fs.root.height < fuel →
        ftw fs (denying denied) fuel start p = some (ret, p')) ∧
      (CompletePreorder start denied base file p ret p' ↔
        (start ≠ "." ∧ start ≠ "..") ∨ p.cwd = [] ∨ denied base = true) := by
  have hget' : fs.root.get? (base ++ []) = some file := by rwa [List.append_nil]
  have hresolve' : fs.resolve p.cwd start = .ok (base ++ []) := by rwa [List.append_nil]
  obtain ⟨p', hwalk, hcwd, hout⟩ := walk_preorder denied hresolve' hget' rfl
    (KeyedTree.height_le_of_get? hget)
  have hvalid : file.Valid FileName := (fs.valid.get? hget).1
  refine ⟨0, p', fun fuel hfuel => walk_mono hfuel hwalk, ?_⟩
  rw [List.append_nil] at hcwd
  rw [← back_eq_iff hdir hsingle hresolve hget hinside, ← hcwd]
  refine ⟨fun hcomplete => hcomplete.cwd, fun hback => ⟨rfl, hback, _, ?_, ?_, ?_, hout⟩⟩
  · intro path node
    rw [hvalid.mem_preorder]
    constructor
    · rintro ⟨below, rfl, hnode, hcut⟩
      refine ⟨hnode, fun front hfront hne => ?_⟩
      rw [← Bool.not_eq_true]
      exact fun hdenied => hcut ⟨front, hfront, hne, hdenied⟩
    · rintro ⟨hnode, hfronts⟩
      refine ⟨path, rfl, hnode, ?_⟩
      rintro ⟨front, hfront, hne, hdenied⟩
      exact Bool.false_ne_true ((hfronts front hfront hne).symm.trans hdenied)
  · exact hvalid.nodup_preorder
  · apply hvalid.pairwise_preorder.imp
    rintro a b ⟨first, second, ha, hb, hbefore⟩
    rw [ha, hb]
    exact hbefore

/-- `chdir` to `a/b` is refused. -/
def deniedInner (path : Path) : Bool :=
  path = ["a", "b"]

theorem complete_preorder_inner :
    ∃ ret p', (∀ fuel, twoDirectories.height < fuel →
        ftw (.ofTree twoDirectories valid_twoDirectories) (denying deniedInner) fuel "a"
          ⟨[], [], []⟩ = some (ret, p')) ∧
      (CompletePreorder "a" deniedInner ["a"] (.branch 2 (.cons "b" (.branch 3 .nil) .nil))
          ⟨[], [], []⟩ ret p' ↔
        ("a" ≠ "." ∧ "a" ≠ "..") ∨ ([] : Path) = [] ∨ deniedInner ["a"] = true) := by
  have hdir : IsDir (.ofTree twoDirectories valid_twoDirectories) [] := ⟨1, _, rfl⟩
  have hsingle : '/' ∉ "a".toList := by decide
  have hresolve : (FileSystem.ofTree twoDirectories valid_twoDirectories).resolve [] "a" =
      .ok ["a"] := by decide
  have hget : (FileSystem.ofTree twoDirectories valid_twoDirectories).root.get? ["a"] =
      some (.branch 2 (.cons "b" (.branch 3 .nil) .nil)) := rfl
  have hinside : ∀ path, deniedInner path = true → ["a"] <+: path := by
    intro path hdenied
    rw [of_decide_eq_true hdenied]
    exact ⟨["b"], rfl⟩
  exact complete_preorder_iff (p := ⟨[], [], []⟩) hdir hsingle hresolve hget hinside

/-- The walk of `.` ends in the directory above. -/
theorem dot_not_restored :
    ¬ ∀ (fs : FileSystem) (denied : Path → Bool) (start : String) (base : Path) (file : File)
      (p p' : Process) (ret : Int) (fuel : Nat), IsDir fs p.cwd → '/' ∉ start.toList →
      fs.resolve p.cwd start = .ok base → fs.root.get? base = some file →
      (∀ path, denied path = true → base <+: path) →
      ftw fs (denying denied) fuel start p = some (ret, p') →
        CompletePreorder start denied base file p ret p' := by
  intro hall
  have hcomplete := hall (.ofTree twoDirectories valid_twoDirectories) (fun _ => false) "."
    ["a", "b"] (.branch 3 .nil) ⟨["a", "b"], [], []⟩
    ⟨["a"], [.file 0 "." 3],
      [⟨.lstat, 0, true⟩, ⟨.chdir, 0, true⟩, ⟨.opendir, 0, true⟩, ⟨.chdir, 0, true⟩]⟩ 0 1
    ⟨3, .nil, rfl⟩ (by decide) rfl rfl (by simp) (by decide)
  exact absurd hcomplete.cwd (by decide)

end FileTree
end OsStuff
