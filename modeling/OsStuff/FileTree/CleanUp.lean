import OsStuff.FileTree.Walk

/-!
# Does the walk clean up?

`walk` returns for every finite tree and every choice of calls that fail.  The
streams are never closed, and a directory that cannot be opened is not left, so the
walk cleans up only when it stops before.
-/

namespace OsStuff
namespace FileTree

open Library

variable {fs : FileSystem} {failures : Failures} {fuel offset : Nat} {nextf : String}
  {p p' p'' : Process} {log made : List Call} {path : Path} {file : File}

/-! ### Fuel -/

theorem readEntries_mono {walk walk' : String → Process → Option (Int × Process)}
    (hwalk : ∀ name p result, walk name p = some result → walk' name p = some result) :
    ∀ {names : List String} {ret : Int} {p : Process} {result : Int × Process},
      readEntries walk names ret p = some result → readEntries walk' names ret p = some result
  | [], _, _, _, hread => hread
  | name :: rest, ret, p, result, hread => by
      rw [readEntries] at hread ⊢
      split at hread
      · rename_i hret
        rw [if_pos hret]
        split at hread
        · rename_i hentry
          obtain ⟨⟨ret', p'⟩, hname, hrest⟩ := Option.bind_eq_some_iff.mp hread
          rw [if_pos hentry, hwalk name p _ hname]
          exact readEntries_mono hwalk hrest
        · rename_i hentry
          rw [if_neg hentry]
          exact readEntries_mono hwalk hread
      · rename_i hret
        rw [if_neg hret]
        exact hread

theorem walk_succ_mono {result : Int × Process}
    (hwalk : walk fs failures fuel nextf offset p = some result) :
    walk fs failures (fuel + 1) nextf offset p = some result := by
  induction fuel generalizing nextf offset p result with
  | zero => cases hwalk
  | succ fuel ih =>
      rw [walk] at hwalk ⊢
      split at hwalk
      · exact hwalk
      · dsimp only at hwalk ⊢
        split at hwalk
        · rename_i hdir
          rw [if_pos hdir]
          exact hwalk
        · rename_i hdir
          rw [if_neg hdir]
          split at hwalk
          · exact hwalk
          · split at hwalk
            · exact hwalk
            · obtain ⟨read, hread, hresult⟩ := Option.map_eq_some_iff.mp hwalk
              rw [readEntries_mono (fun name p result h => ih h) hread]
              exact congrArg some hresult

/-- More fuel does not change a walk that returns. -/
theorem walk_mono {fuel' : Nat} (hle : fuel ≤ fuel') {result : Int × Process}
    (hwalk : walk fs failures fuel nextf offset p = some result) :
    walk fs failures fuel' nextf offset p = some result := by
  induction hle with
  | refl => exact hwalk
  | step _ ih => exact walk_succ_mono ih

/-! ### Streams -/

/-- A call that neither opens nor closes a stream. -/
def Call.Neutral (call : Call) : Prop :=
  (call.kind = .opendir → call.succeeded = false) ∧ call.kind ≠ .closedir

theorem openStreams_append :
    openStreams (log ++ made) = openStreams log + openStreams made := by
  simp only [openStreams, List.countP_append]
  omega

theorem openStreams_of_neutral (hmade : ∀ call ∈ made, call.Neutral) :
    openStreams made = 0 := by
  have hopened : made.countP (fun call => call.kind = .opendir ∧ call.succeeded) = 0 := by
    refine List.countP_eq_zero.mpr fun call hcall => ?_
    have hneutral := (hmade call hcall).1
    simp only [decide_eq_true_eq, not_and, Bool.not_eq_true]
    exact hneutral
  have hclosed : made.countP (fun call => call.kind = .closedir ∧ call.succeeded) = 0 := by
    refine List.countP_eq_zero.mpr fun call hcall => ?_
    have hneutral := (hmade call hcall).2
    simp [hneutral]
  rw [openStreams, hopened, hclosed]
  rfl

theorem openStreams_pos (hmade : ∀ call ∈ made, call.kind ≠ .closedir) (call : Call)
    (hcall : call ∈ made) (hkind : call.kind = .opendir) (hsucceeded : call.succeeded) :
    0 < openStreams made := by
  have hopened : 0 < made.countP (fun call => call.kind = .opendir ∧ call.succeeded) :=
    List.countP_pos_iff.mpr ⟨call, hcall, by simp [hkind, hsucceeded]⟩
  have hclosed : made.countP (fun call => call.kind = .closedir ∧ call.succeeded) = 0 := by
    refine List.countP_eq_zero.mpr fun call hcall => ?_
    simp [hmade call hcall]
  rw [openStreams, hclosed]
  omega

/-! ### What a walk leaves behind -/

/-- Calls have been made, and none of them closes a stream. -/
def Unclosed (p p' : Process) : Prop :=
  ∃ made, p'.log = p.log ++ made ∧ ∀ call ∈ made, call.kind ≠ .closedir

theorem Unclosed.refl : Unclosed p p :=
  ⟨[], (List.append_nil _).symm, by simp⟩

theorem Unclosed.trans (hfirst : Unclosed p p') (hsecond : Unclosed p' p'') :
    Unclosed p p'' := by
  obtain ⟨made, hmade, hkinds⟩ := hfirst
  obtain ⟨made', hmade', hkinds'⟩ := hsecond
  refine ⟨made ++ made', by rw [hmade', hmade, List.append_assoc], ?_⟩
  intro call hcall
  exact (List.mem_append.mp hcall).elim (hkinds call) (hkinds' call)

/-- Behind the entries of a directory: the current directory is this one or below
it, and still there. -/
structure After (fs : FileSystem) (p p' : Process) : Prop where
  below : p.cwd <+: p'.cwd
  isDir : IsDir fs p'.cwd
  unclosed : Unclosed p p'

/-- `walk` stops before it goes down: there is no such directory, or one of the three
calls fails.  (It fails to open a directory behind `chdir`.) -/
def StopsAbove (fs : FileSystem) (failures : Failures) (nextf : String) (p : Process) :
    Prop :=
  ∀ path, fs.resolve p.cwd nextf = .ok path → ¬ IsDir fs path ∨
    failures.lstat p.log.length path ≠ none ∨
    failures.chdir (p.log.length + 1) path = true ∨
    (failures.opendir (p.log.length + 2) path = true ∧ path = p.cwd)

/-- How a walk ends. -/
inductive Outcome (fs : FileSystem) (failures : Failures) (nextf : String)
    (p p' : Process) : Prop
  | stopped (hstops : StopsAbove fs failures nextf p) (hcwd : p'.cwd = p.cwd)
      (made : List Call) (hlog : p'.log = p.log ++ made)
      (hmade : ∀ call ∈ made, call.Neutral)
  | unopened (path : Path) (hresolve : fs.resolve p.cwd nextf = .ok path)
      (hstops : ¬ StopsAbove fs failures nextf p) (hdir : IsDir fs path)
      (hne : path ≠ p.cwd) (hcwd : p'.cwd = path) (hunclosed : Unclosed p p')
  | opened (path : Path) (hresolve : fs.resolve p.cwd nextf = .ok path)
      (hstops : ¬ StopsAbove fs failures nextf p) (hdir : IsDir fs p'.cwd)
      (hbelow : path.dropLast <+: p'.cwd) (hunclosed : Unclosed p p')
      (hopened : openStreams p.log < openStreams p'.log)

theorem chdir_dotdot (hdir : IsDir fs p.cwd) :
    ∃ succeeded cwd, (chdir fs failures ".." offset p).2 =
        { p.call .chdir offset succeeded with cwd := cwd } ∧
      (cwd = p.cwd ∨ cwd = p.cwd.dropLast) := by
  rw [chdir, hdir.resolve_dotdot]
  dsimp only
  split
  · exact ⟨false, p.cwd, rfl, Or.inl rfl⟩
  · exact ⟨true, p.cwd.dropLast, rfl, Or.inr rfl⟩

theorem lstat_of_error {errno : Nat} (hresolve : fs.resolve p.cwd nextf = .error errno) :
    lstat fs failures nextf offset p = (.error errno, p.call .lstat offset false) := by
  rw [lstat, hresolve]
  rfl

theorem lstat_of_failure {errno : Nat} (hresolve : fs.resolve p.cwd nextf = .ok path)
    (hfails : failures.lstat p.log.length path = some errno) :
    lstat fs failures nextf offset p = (.error errno, p.call .lstat offset false) := by
  rw [lstat, hresolve]
  dsimp only
  rw [hfails]
  rfl

theorem lstat_of_exists (hresolve : fs.resolve p.cwd nextf = .ok path)
    (hfails : failures.lstat p.log.length path = none) (hget : fs.root.get? path = some file) :
    lstat fs failures nextf offset p = (.ok file, p.call .lstat offset true) := by
  rw [lstat, hresolve]
  dsimp only
  rw [hfails, hget]
  rfl

theorem chdir_of_resolve (hresolve : fs.resolve p.cwd nextf = .ok path) :
    chdir fs failures nextf offset p =
      if failures.chdir p.log.length path then (false, p.call .chdir offset false)
      else (true, { p.call .chdir offset true with cwd := path }) := by
  rw [chdir, hresolve]

/-- A directory is entered, unless one of the calls fails. -/
theorem walk_of_directory {ino : Nat} {entries : Branches String Nat}
    (hresolve : fs.resolve p.cwd nextf = .ok path)
    (hlstat : failures.lstat p.log.length path = none)
    (hget : fs.root.get? path = some (.branch ino entries)) :
    walk fs failures (fuel + 1) nextf offset p =
      let p := (p.call .lstat offset true).print [.file offset nextf ino]
      if failures.chdir p.log.length path then
        some (0, (p.call .chdir offset false).print (chdirText nextf))
      else
        let p := { p.call .chdir offset true with cwd := path }
        if failures.opendir p.log.length path then
          some (-1, (p.call .opendir offset false).print (opendirText nextf))
        else
          (readEntries (fun name p => walk fs failures fuel name (offset + 2) p)
            (fs.readdir path) 0 (p.call .opendir offset true)).map
              fun (ret, p) => (ret, (chdir fs failures ".." offset p).2) := by
  rw [walk, lstat_of_exists hresolve hlstat hget]
  have hchdir : chdir fs failures nextf offset
      ((p.call .lstat offset true).print [.file offset nextf ino]) =
        if failures.chdir ((p.call .lstat offset true).print
            [.file offset nextf ino]).log.length path then
          (false, ((p.call .lstat offset true).print [.file offset nextf ino]).call
            .chdir offset false)
        else
          (true, { ((p.call .lstat offset true).print [.file offset nextf ino]).call
            .chdir offset true with cwd := path }) := chdir_of_resolve hresolve
  dsimp only [KeyedTree.data]
  rw [if_neg (by simp [S_ISDIR]), hchdir]
  by_cases hdenied : failures.chdir ((p.call .lstat offset true).print
      [.file offset nextf ino]).log.length path = true
  · rw [if_pos hdenied, if_pos hdenied]
  · rw [if_neg hdenied, if_neg hdenied]
    dsimp only [opendir]
    by_cases hopendir : failures.opendir ((((p.call .lstat offset true).print
        [.file offset nextf ino]).call .chdir offset true).log.length) path = true
    · rw [if_pos hopendir, if_pos hopendir]
    · rw [if_neg hopendir, if_neg hopendir]

/-- The end of a walk whose loop has returned. -/
theorem After.outcome (hafter : After fs p' p'')
    (hresolve : fs.resolve p.cwd nextf = .ok p'.cwd)
    (hstops : ¬ StopsAbove fs failures nextf p)
    (hopen : p'.log = p.log ++ [⟨.lstat, offset, true⟩] ++ [⟨.chdir, offset, true⟩] ++
      [⟨.opendir, offset, true⟩]) :
    Outcome fs failures nextf p (chdir fs failures ".." offset p'').2 := by
  obtain ⟨succeeded, cwd, hchdir, hcwd⟩ :=
    chdir_dotdot hafter.isDir
  obtain ⟨made, hmade, hkinds⟩ := hafter.unclosed
  -- chdir to .. goes one component up, from the directory of the walk or from one below it.
  have hbelow : p'.cwd.dropLast <+: cwd := by
    rcases hcwd with rfl | rfl
    · exact (List.dropLast_prefix _).trans hafter.below
    · obtain ⟨rest, hrest⟩ := hafter.below
      rw [← hrest]
      rcases List.eq_nil_or_concat rest with rfl | ⟨front, last, rfl⟩
      · rw [List.append_nil]
      · rw [List.concat_eq_append, ← List.append_assoc, List.dropLast_concat]
        exact (List.dropLast_prefix _).trans (List.prefix_append _ _)
  have hdir : IsDir fs cwd := by
    rcases hcwd with rfl | rfl
    · exact hafter.isDir
    · exact hafter.isDir.dropLast
  have hclosed : ∀ call ∈ [⟨.lstat, offset, true⟩, ⟨.chdir, offset, true⟩,
      ⟨.opendir, offset, true⟩] ++ made ++ [⟨.chdir, offset, succeeded⟩],
        call.kind ≠ .closedir := by
    intro call hcall
    simp only [List.mem_append, List.mem_cons, List.not_mem_nil, or_false] at hcall
    rcases hcall with ((rfl | rfl | rfl) | hmem) | rfl
    any_goals simp
    exact hkinds call hmem
  have hlog : (p''.call .chdir offset succeeded).log = p.log ++ ([⟨.lstat, offset, true⟩,
      ⟨.chdir, offset, true⟩, ⟨.opendir, offset, true⟩] ++ made ++
        [⟨.chdir, offset, succeeded⟩]) := by
    simp [Process.call, hmade, hopen]
  rw [hchdir]
  refine .opened p'.cwd hresolve hstops hdir hbelow ⟨_, hlog, hclosed⟩ ?_
  -- The opendir at the start has no closedir after it, so the stream stays open.
  have hpos := openStreams_pos hclosed ⟨.opendir, offset, true⟩ (by simp) rfl rfl
  change openStreams p.log < openStreams (p''.call .chdir offset succeeded).log
  rw [hlog, openStreams_append]
  omega

/-- One `walk`, when its loop returns. -/
theorem walk_outcome
    (hloop : ∀ path p', fs.resolve p.cwd nextf = .ok path → IsDir fs path → p'.cwd = path →
      ∃ ret p'', readEntries (fun name p => walk fs failures fuel name (offset + 2) p)
        (fs.readdir path) 0 p' = some (ret, p'') ∧ After fs p' p'') :
    ∃ ret p', walk fs failures (fuel + 1) nextf offset p = some (ret, p') ∧
      Outcome fs failures nextf p p' := by
  -- A failed lstat is reported, and the walk returns its errno.
  have hfailed : ∀ errno, lstat fs failures nextf offset p =
      (.error errno, p.call .lstat offset false) → StopsAbove fs failures nextf p →
      ∃ ret p', walk fs failures (fuel + 1) nextf offset p = some (ret, p') ∧
        Outcome fs failures nextf p p' := by
    intro errno hlstat hstops
    refine ⟨errno, (p.call .lstat offset false).print (lstatText errno), ?_,
      .stopped hstops rfl [⟨.lstat, offset, false⟩] rfl ?_⟩
    · rw [walk, hlstat]
    · simp [Call.Neutral]
  cases hresolve : fs.resolve p.cwd nextf with
  | error errno =>
      apply hfailed errno (lstat_of_error hresolve)
      intro path hpath
      rw [hresolve] at hpath
      cases hpath
  | ok path =>
      obtain ⟨file, hget⟩ := Option.isSome_iff_exists.mp (fs.resolve_exists _ _ _ hresolve)
      have hfound : ∀ path', fs.resolve p.cwd nextf = .ok path' → path' = path := by
        intro path' hpath'
        rw [hresolve] at hpath'
        exact (Except.ok.inj hpath').symm
      cases hlstat : failures.lstat p.log.length path with
      | some errno =>
          apply hfailed errno (lstat_of_failure hresolve hlstat)
          intro path' hpath'
          rw [hfound path' hpath', hlstat]
          exact Or.inr (Or.inl (Option.some_ne_none errno))
      | none =>
          cases file with
          | leaf ino =>
              rw [walk, lstat_of_exists hresolve hlstat hget]
              -- A file that is no directory: lstat is the only call.
              refine ⟨0, _, if_pos rfl, .stopped ?_ rfl [⟨.lstat, offset, true⟩] rfl ?_⟩
              · intro path' hpath'
                rw [hfound path' hpath']
                left
                rintro ⟨ino', entries, hdir⟩
                rw [hget] at hdir
                cases hdir
              · simp [Call.Neutral]
          | branch ino entries =>
              have hdir : IsDir fs path := ⟨ino, entries, hget⟩
              have hstops : StopsAbove fs failures nextf p ↔
                  (failures.chdir (p.log.length + 1) path = true ∨
                    (failures.opendir (p.log.length + 2) path = true ∧ path = p.cwd)) := by
                constructor
                · intro hstops
                  have h := hstops path hresolve
                  rwa [hlstat, or_iff_right (not_not_intro hdir),
                    or_iff_right (not_not_intro rfl)] at h
                · intro hstops path' hpath'
                  rw [hfound path' hpath']
                  exact Or.inr (Or.inr hstops)
              rw [walk_of_directory hresolve hlstat hget]
              dsimp only [Process.print, Process.call]
              simp only [List.length_append, List.length_singleton]
              split
              · rename_i hchdir
                -- chdir is refused, which walk reports and answers with 0.
                refine ⟨0, _, rfl, .stopped (hstops.mpr (Or.inl hchdir)) rfl
                  [⟨.lstat, offset, true⟩, ⟨.chdir, offset, false⟩] (by simp) ?_⟩
                simp [Call.Neutral]
              · rename_i hchdir
                split
                · rename_i hopendir
                  refine ⟨-1, _, rfl, ?_⟩
                  -- opendir is refused after chdir, and the walk returns without the way
                  -- back. The process has moved unless it stood in the directory before.
                  by_cases hcwd : path = p.cwd
                  · refine .stopped (hstops.mpr (Or.inr ⟨hopendir, hcwd⟩)) hcwd
                      [⟨.lstat, offset, true⟩, ⟨.chdir, offset, true⟩,
                        ⟨.opendir, offset, false⟩] (by simp) ?_
                    simp [Call.Neutral]
                  · refine .unopened path hresolve ?_ hdir hcwd rfl ⟨[⟨.lstat, offset, true⟩,
                      ⟨.chdir, offset, true⟩, ⟨.opendir, offset, false⟩], by simp, by simp⟩
                    rw [hstops]
                    exact not_or.mpr ⟨hchdir, fun h => hcwd h.2⟩
                · rename_i hopendir
                  have hnot : ¬ StopsAbove fs failures nextf p := by
                    rw [hstops]
                    exact not_or.mpr ⟨hchdir, fun h => hopendir h.1⟩
                  obtain ⟨ret, p', hread, hafter⟩ := hloop path
                    ⟨path, p.out ++ [.file offset nextf ino], p.log ++ [⟨.lstat, offset, true⟩] ++
                      [⟨.chdir, offset, true⟩] ++ [⟨.opendir, offset, true⟩]⟩ hresolve hdir rfl
                  rw [hread]
                  exact ⟨ret, _, rfl, hafter.outcome hresolve hnot rfl⟩

theorem Outcome.unclosed (houtcome : Outcome fs failures nextf p p') : Unclosed p p' := by
  cases houtcome with
  | stopped _ _ made hlog hmade => exact ⟨made, hlog, fun call hcall => (hmade call hcall).2⟩
  | unopened _ _ _ _ _ _ hunclosed => exact hunclosed
  | opened _ _ _ _ _ hunclosed _ => exact hunclosed

/-- The walk of an entry stays at the directory or below it. -/
theorem Outcome.after (houtcome : Outcome fs failures nextf p p') (hdir : IsDir fs p.cwd)
    (hname : FileName nextf) : After fs p p' := by
  have hunclosed := houtcome.unclosed
  cases houtcome with
  | stopped _ hcwd _ _ _ => exact ⟨hcwd ▸ List.prefix_refl _, hcwd ▸ hdir, hunclosed⟩
  | unopened path hresolve _ hpath _ hcwd _ =>
      refine ⟨?_, hcwd ▸ hpath, hunclosed⟩
      rw [hcwd, hdir.eq_of_resolve hname hresolve]
      exact List.prefix_append _ _
  | opened path hresolve _ hpath hbelow _ _ =>
      refine ⟨?_, hpath, hunclosed⟩
      rwa [hdir.eq_of_resolve hname hresolve, List.dropLast_concat] at hbelow

/-- The tree below the current directory is not higher than `bound`. -/
def Fits (fs : FileSystem) (bound : Nat) (p : Process) : Prop :=
  ∃ ino entries, fs.root.get? p.cwd = some (.branch ino entries) ∧
    (KeyedTree.branch ino entries).height ≤ bound

theorem Fits.isDir {bound : Nat} (hfits : Fits fs bound p) : IsDir fs p.cwd := by
  obtain ⟨ino, entries, hget, -⟩ := hfits
  exact ⟨ino, entries, hget⟩

theorem Fits.after {bound : Nat} (hfits : Fits fs bound p) (hafter : After fs p p') :
    Fits fs bound p' := by
  obtain ⟨ino, entries, hget, hheight⟩ := hfits
  obtain ⟨ino', entries', hget'⟩ := hafter.isDir
  refine ⟨ino', entries', hget', Nat.le_trans ?_ hheight⟩
  obtain ⟨rest, hrest⟩ := hafter.below
  rw [← hrest, KeyedTree.get?_append, hget] at hget'
  exact KeyedTree.height_le_of_get? hget'

theorem After.refl (hdir : IsDir fs p.cwd) : After fs p p :=
  ⟨List.prefix_refl _, hdir, Unclosed.refl⟩

theorem After.trans (hfirst : After fs p p') (hsecond : After fs p' p'') : After fs p p'' :=
  ⟨hfirst.below.trans hsecond.below, hsecond.isDir, hfirst.unclosed.trans hsecond.unclosed⟩

theorem readEntries_returns {bound : Nat} {walk : String → Process → Option (Int × Process)}
    (hwalk : ∀ name p, FileName name → Fits fs bound p →
      ∃ ret p', walk name p = some (ret, p') ∧ After fs p p') :
    ∀ {names : List String} {ret : Int} {p : Process},
      (∀ name ∈ names, isEntry name → FileName name) → Fits fs bound p →
        ∃ ret' p', readEntries walk names ret p = some (ret', p') ∧ After fs p p'
  | [], ret, p, _, hfits => ⟨ret, p, rfl, After.refl hfits.isDir⟩
  | name :: rest, ret, p, hnames, hfits => by
      have hrest : ∀ name ∈ rest, isEntry name → FileName name :=
        fun name hname => hnames name (List.mem_cons_of_mem _ hname)
      rw [readEntries]
      split
      · split
        · rename_i hentry
          obtain ⟨ret', p', hreturns, hafter⟩ :=
            hwalk name p (hnames name List.mem_cons_self hentry) hfits
          obtain ⟨ret'', p'', hread, hafter'⟩ :=
            readEntries_returns hwalk hrest (hfits.after hafter)
          exact ⟨ret'', p'', by rw [hreturns]; exact hread, hafter.trans hafter'⟩
        · exact readEntries_returns hwalk hrest hfits
      · exact ⟨ret, p, rfl, After.refl hfits.isDir⟩

/-- With fuel for the height of the tree at the name a walk returns.  The induction is
on the fuel: the loop stays below the directory entered, even if `..` is refused or an
entry's walk has not come back, so the trees that it meets get lower. -/
theorem walk_returns (hpath : ∀ path file, fs.resolve p.cwd nextf = .ok path →
      fs.root.get? path = some file → file.height ≤ fuel) :
    ∃ ret p', walk fs failures (fuel + 1) nextf offset p = some (ret, p') ∧
      Outcome fs failures nextf p p' := by
  induction fuel generalizing nextf offset p with
  | zero =>
      apply walk_outcome
      rintro path p' hresolve ⟨ino, entries, hget⟩ -
      exact absurd (hpath path _ hresolve hget) (Nat.not_succ_le_zero _)
  | succ fuel ih =>
      apply walk_outcome
      rintro path p' hresolve ⟨ino, entries, hget⟩ rfl
      have hheight : entries.height + 1 ≤ fuel + 1 := hpath p'.cwd _ hresolve hget
      have hfits : Fits fs (fuel + 1) p' := ⟨ino, entries, hget, hheight⟩
      apply readEntries_returns ?_ ?_ hfits
      · intro name q hname hq
        obtain ⟨ino', entries', hget', hheight'⟩ := hq
        have hreturns := @ih (offset + 2) name q ?_
        · obtain ⟨ret, q', hwalk, houtcome⟩ := hreturns
          exact ⟨ret, q', hwalk, houtcome.after ⟨ino', entries', hget'⟩ hname⟩
        · intro path file hresolve' hfile
          have hpath' := IsDir.eq_of_resolve ⟨ino', entries', hget'⟩ hname hresolve'
          rw [hpath', KeyedTree.get?_append, hget', Option.bind_some,
            KeyedTree.get?_branch] at hfile
          obtain ⟨child, hfind, hchild⟩ := Option.bind_eq_some_iff.mp hfile
          rw [KeyedTree.get?_nil, Option.some.injEq] at hchild
          have hle := Branches.height_le_of_find? hfind
          have hbranch : entries'.height + 1 ≤ fuel + 1 := hheight'
          rw [← hchild]
          omega
      · exact fun name hname => fileName_of_entry ⟨ino, entries, hget⟩ hname

/-! ### The result -/

/-- The current directory is as before, no more streams are open than before, and no
call found more of them open than the directories that the walk is in. -/
structure CleansUp (offset : Nat) (p p' : Process) : Prop where
  cwd : p'.cwd = p.cwd
  streams : openStreams p'.log = openStreams p.log
  depth : ∃ made, p'.log = p.log ++ made ∧
    EachEntry (fun front call => openStreams (p.log ++ front ++ [call]) ≤
      openStreams p.log + ((call.offset - offset) / 2 + 1 : Nat)) made

theorem cleansUp_of_neutral (hcwd : p'.cwd = p.cwd) (hlog : p'.log = p.log ++ made)
    (hmade : ∀ call ∈ made, call.Neutral) : CleansUp offset p p' := by
  refine ⟨hcwd, ?_, made, hlog, ?_⟩
  · rw [hlog, openStreams_append, openStreams_of_neutral hmade, add_zero]
  · intro front call back hsplit
    have hfront : ∀ call' ∈ front ++ [call], call'.Neutral := by
      intro call' hcall'
      apply hmade
      rw [hsplit, List.append_cons]
      exact List.mem_append_left _ hcall'
    rw [List.append_assoc, openStreams_append, openStreams_of_neutral hfront]
    omega

/-- Every walk returns, and it cleans up if and only if it stops above the loop, in the
directory it was called in. -/
theorem cleans_up_iff (fs : FileSystem) (failures : Failures) (nextf : String)
    (offset : Nat) (p : Process) :
    ∃ ret p', (∀ fuel, fs.root.height < fuel →
        walk fs failures fuel nextf offset p = some (ret, p')) ∧
      (CleansUp offset p p' ↔ StopsAbove fs failures nextf p) := by
  obtain ⟨ret, p', hwalk, houtcome⟩ := walk_returns (p := p)
    fun path file _ hget => KeyedTree.height_le_of_get? hget
  refine ⟨ret, p', fun fuel hfuel => walk_mono hfuel hwalk, ?_⟩
  cases houtcome with
  | stopped hstops hcwd made hlog hmade =>
      exact iff_of_true (cleansUp_of_neutral hcwd hlog hmade) hstops
  | unopened path _ hstops _ hne hcwd _ =>
      exact iff_of_false (fun hclean => hne (hcwd.symm.trans hclean.cwd)) hstops
  | opened _ _ hstops _ _ _ hopened =>
      exact iff_of_false (fun hclean => hopened.ne hclean.streams.symm) hstops

/-- Nothing fails. -/
def noFailures : Failures where
  lstat _ _ := none
  chdir _ _ := false
  opendir _ _ := false

/-- The directories `a` and `a/b`. -/
def twoDirectories : File :=
  .branch 1 (.cons "a" (.branch 2 (.cons "b" (.branch 3 .nil) .nil)) .nil)

theorem valid_twoDirectories : twoDirectories.Valid FileName := by
  simp [twoDirectories, KeyedTree.Valid, Branches.Valid, Branches.find?, FileName, isEntry]

/-- The directory `a/b` cannot be opened: the walk of `a` ends in `a`, and the stream of
`a` stays open. -/
theorem unopened_directory_left_open :
    ¬ ∀ (fs : FileSystem) (failures : Failures) (nextf : String) (offset : Nat)
      (p p' : Process) (ret : Int) (fuel : Nat),
      walk fs failures fuel nextf offset p = some (ret, p') → CleansUp offset p p' := by
  intro hall
  have hclean := hall (.ofTree twoDirectories valid_twoDirectories)
    { noFailures with opendir := fun _ path => path = ["a", "b"] } "a" 0 ⟨[], [], []⟩
    ⟨["a"], [.file 0 "a" 2, .file 2 "b" 3, .message "Ошибка при открытии директории b\n"],
      [⟨.lstat, 0, true⟩, ⟨.chdir, 0, true⟩, ⟨.opendir, 0, true⟩, ⟨.lstat, 2, true⟩,
        ⟨.chdir, 2, true⟩, ⟨.opendir, 2, false⟩, ⟨.chdir, 0, true⟩]⟩ (-1) 3 (by decide)
  exact absurd hclean.cwd (by decide)

end FileTree
end OsStuff
