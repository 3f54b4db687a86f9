import OsStuff.Library.Ledger
import OsStuff.Library.Run

/-!
# `7_vfs/main.c`

What the module takes from the kernel and gives back when it is loaded, mounted,
unmounted and unloaded, for every outcome of the calls.  A mounted file system
keeps the module from being unloaded.

`d_make_root` gives its inode back when it fails; `myfs_fill_sb` then gives it
back once more.  A load that fails behind `register_filesystem` leaves the file
system registered under its name.
-/

namespace OsStuff
namespace Vfs

open Library

/-- `-ENOMEM` -/
def enomem : Int := -12

inductive Resource
  | fileSystem
  | cache
  | object
  | inode
  | dentry
  deriving DecidableEq, Repr

abbrev Handle := Nat × Resource

/-- The static variables of a module that is loaded. -/
structure Statics where
  cache : Handle
  cacheArea : Handle
  deriving DecidableEq, Repr

/-- A mounted file system. -/
structure SuperBlock where
  root : Handle
  inode : Handle
  deriving DecidableEq, Repr

/-- `registered` is the entry in the kernel's list of file systems. -/
structure State where
  ledger : Ledger Resource
  registered : Option Handle
  statics : Option Statics
  mounts : List SuperBlock
  deriving DecidableEq, Repr

inductive Event
  /-- The module is loaded, with the result of `register_filesystem` and whether
  the other calls succeed. -/
  | insmod (ret : Int) (cache object : Bool)
  /-- It is unloaded, with the result of `unregister_filesystem`. -/
  | rmmod (ret : Int)
  | mount (inode root : Bool)
  | umount (i : Nat)
  deriving DecidableEq, Repr

/-- `myfs_init`: the result and the state, with the static variables if the
result is zero. -/
def myfsInit (state : State) (ret : Int) (cacheCreated allocated : Bool) : Int × State :=
  if ret ≠ 0 then (ret, state)
  else
    let (ledger, fileSystem) := state.ledger.alloc .fileSystem
    let state := { state with ledger := ledger, registered := some fileSystem }
    if cacheCreated = false then (enomem, state)
    else
      let (ledger, cache) := state.ledger.alloc .cache
      if allocated = false then (enomem, { state with ledger := ledger.free cache })
      else
        let (ledger, cacheArea) := ledger.alloc .object
        (0, { state with ledger := ledger, statics := some ⟨cache, cacheArea⟩ })

/-- `myfs_exit` -/
def myfsExit (state : State) (statics : Statics) (ret : Int) : State :=
  if ret ≠ 0 then state
  else
    match state.registered with
    | some fileSystem =>
        let ledger := state.ledger.free fileSystem
        let ledger := ledger.free statics.cacheArea
        { state with ledger := ledger.free statics.cache, registered := none }
    | none => state

/-- `d_make_root` -/
def dMakeRoot (ledger : Ledger Resource) (inode : Handle) (made : Bool) :
    Ledger Resource × Option Handle :=
  if made then
    let (ledger, root) := ledger.alloc .dentry
    (ledger, some root)
  else (ledger.free inode, none)

/-- `myfs_fill_sb`, with the inode of `myfs_make_inode`. -/
def myfsFillSb (ledger : Ledger Resource) (inode root : Bool) :
    Ledger Resource × Except Int SuperBlock :=
  if inode then
    let (ledger, inode) := ledger.alloc .inode
    match dMakeRoot ledger inode root with
    | (ledger, none) => (ledger.free inode, .error enomem)
    | (ledger, some root) => (ledger, .ok ⟨root, inode⟩)
  else (ledger, .error enomem)

/-- `kill_anon_super` drops the root, and with it the inode. -/
def killSb (ledger : Ledger Resource) (super : SuperBlock) : Ledger Resource :=
  (ledger.free super.root).free super.inode

def step (state : State) : Event → Option State
  | .insmod ret cache object =>
      -- a name is registered once
      if state.statics = none ∧ (ret = 0 → state.registered = none) then
        some (myfsInit state ret cache object).2
      else none
  | .rmmod ret =>
      match state.statics with
      | some statics =>
          if state.mounts = [] ∧ (ret = 0 ↔ state.registered ≠ none) then
            some { myfsExit state statics ret with statics := none }
          else none
      | none => none
  | .mount inode root =>
      if state.statics ≠ none ∧ state.registered ≠ none then
        match myfsFillSb state.ledger inode root with
        | (ledger, .ok super) =>
            some { state with ledger := ledger, mounts := state.mounts ++ [super] }
        | (ledger, .error _) => some { state with ledger := ledger }
      else none
  | .umount i =>
      state.mounts[i]?.map fun super =>
        { state with
          ledger := killSb state.ledger super, mounts := state.mounts.eraseIdx i }

/-- Before the module is loaded for the first time. -/
def State.initial : State := ⟨.empty, none, none, []⟩

/-- `d_make_root` fails. -/
def Event.putsTwice : Event → Bool
  | .mount true false => true
  | _ => false

/-- The module is not loaded although the file system has been registered. -/
def Event.strands : Event → Bool
  | .insmod ret cache object => ret = 0 && !(cache && object)
  | _ => false

/-! ## What is held -/

def Statics.handles (statics : Statics) : List Handle :=
  [statics.cacheArea, statics.cache]

def SuperBlock.handles (super : SuperBlock) : List Handle :=
  [super.root, super.inode]

def State.handles (state : State) : List Handle :=
  state.mounts.flatMap SuperBlock.handles ++
    (state.registered.toList ++ state.statics.toList.flatMap Statics.handles)

variable {state next : State} {event : Event} {events : List Event} {invalid : Nat}
  {owned : List Handle}

/-- The invariant after `invalid` wrong calls of `iput`. -/
structure Inv (invalid : Nat) (state : State) : Prop where
  holds : state.ledger.Holds invalid state.handles
  registered : state.statics ≠ none → state.registered ≠ none
  mounted : state.mounts ≠ [] → state.statics ≠ none

theorem myfsFillSb_holds {ledger : Ledger Resource} (hholds : ledger.Holds invalid owned)
    (inode root : Bool) :
    (∃ ledger' super, myfsFillSb ledger inode root = (ledger', .ok super) ∧
      ledger'.Holds (invalid + if (Event.mount inode root).putsTwice then 1 else 0)
        (super.handles ++ owned)) ∨
    ∃ ledger' error, myfsFillSb ledger inode root = (ledger', .error error) ∧
      ledger'.Holds (invalid + if (Event.mount inode root).putsTwice then 1 else 0)
        owned := by
  cases inode with
  | false => exact Or.inr ⟨_, _, rfl, hholds⟩
  | true =>
      cases root with
      | false => exact Or.inr ⟨_, _, rfl, (hholds.alloc .inode).free_twice⟩
      | true => exact Or.inl ⟨_, _, rfl, (hholds.alloc .inode).alloc .dentry⟩

theorem Inv.insmod (hinv : Inv invalid state) (hstatics : state.statics = none) {ret : Int}
    (hname : ret = 0 → state.registered = none) (cache object : Bool) :
    Inv invalid (myfsInit state ret cache object).2 := by
  have hmounts : state.mounts = [] := by
    by_contra hmounts
    exact hinv.mounted hmounts hstatics
  have hholds := hinv.holds
  unfold State.handles at hholds
  unfold myfsInit
  by_cases hret : ret = 0
  · rw [if_neg (not_not.mpr hret)]
    rw [hname hret, hstatics, hmounts] at hholds
    have hregistered := hholds.alloc .fileSystem
    have hcreated := hregistered.alloc .cache
    cases cache with
    | false =>
        constructor
        · unfold State.handles
          rw [hstatics, hmounts]
          exact hregistered
        · nofun
        · exact fun h => absurd hmounts h
    | true =>
        cases object with
        | false =>
            constructor
            · unfold State.handles
              rw [hstatics, hmounts]
              exact hcreated.free
            · nofun
            · exact fun h => absurd hmounts h
        | true =>
            have hall := hcreated.alloc .object
            constructor
            · unfold State.handles
              rw [hmounts]
              -- the registration is the oldest of the three
              exact hall.perm (@List.perm_append_comm _ [_, _] [_])
            · nofun
            · exact fun h => absurd hmounts h
  · rw [if_pos hret]
    exact hinv

theorem Inv.rmmod (hinv : Inv invalid state) {statics : Statics}
    (hstatics : state.statics = some statics) (hmounts : state.mounts = []) {ret : Int}
    (hret : ret = 0 ↔ state.registered ≠ none) :
    Inv invalid { myfsExit state statics ret with statics := none } ∧
      (myfsExit state statics ret).registered = none := by
  have hregistered : state.registered ≠ none :=
    hinv.registered (by rw [hstatics]; exact Option.some_ne_none statics)
  obtain ⟨fileSystem, hfile⟩ := Option.ne_none_iff_exists'.mp hregistered
  have hholds := hinv.holds
  unfold State.handles at hholds
  rw [hfile, hstatics, hmounts] at hholds
  unfold myfsExit
  rw [if_neg (not_not.mpr (hret.mpr hregistered)), hfile]
  refine ⟨⟨?_, fun h => absurd rfl h, fun h => absurd hmounts h⟩, rfl⟩
  unfold State.handles
  rw [hmounts]
  exact Ledger.Holds.free (Ledger.Holds.free (Ledger.Holds.free hholds))

theorem Inv.mount (hinv : Inv invalid state) {inode root : Bool}
    (hstep : Vfs.step state (.mount inode root) = some next) :
    Inv (invalid + if (Event.mount inode root).putsTwice then 1 else 0) next ∧
      next.registered = state.registered ∧ next.statics = state.statics := by
  unfold Vfs.step at hstep
  obtain ⟨⟨hstatics, -⟩, hstep⟩ := Option.ite_none_right_eq_some.mp hstep
  rcases myfsFillSb_holds hinv.holds inode root with
    ⟨ledger, super, hfill, hholds⟩ | ⟨ledger, error, hfill, hholds⟩
  · rw [hfill, Option.some.injEq] at hstep
    subst hstep
    refine ⟨⟨hholds.perm ?_, hinv.registered, fun _ => hstatics⟩, rfl, rfl⟩
    unfold State.handles
    rw [List.flatMap_append, List.flatMap_singleton, List.append_assoc]
    exact List.perm_append_comm_assoc _ _ _
  · rw [hfill, Option.some.injEq] at hstep
    subst hstep
    exact ⟨⟨hholds, hinv.registered, hinv.mounted⟩, rfl, rfl⟩

theorem Inv.umount (hinv : Inv invalid state) {i : Nat} {super : SuperBlock}
    (hi : state.mounts[i]? = some super) :
    Inv invalid { state with
      ledger := killSb state.ledger super, mounts := state.mounts.eraseIdx i } := by
  have hmounted : state.statics ≠ none := by
    apply hinv.mounted
    intro hmounts
    rw [hmounts] at hi
    contradiction
  have hothers : state.handles.Perm (super.handles ++
      ((state.mounts.eraseIdx i).flatMap SuperBlock.handles ++
        (state.registered.toList ++ state.statics.toList.flatMap Statics.handles))) := by
    unfold State.handles
    rw [← List.append_assoc super.handles]
    exact (flatMap_eraseIdx_perm hi).symm.append_right _
  exact ⟨(hinv.holds.perm hothers).free.free, hinv.registered, fun _ => hmounted⟩

theorem Inv.step (hinv : Inv invalid state) (hstep : Vfs.step state event = some next) :
    Inv (invalid + if event.putsTwice then 1 else 0) next := by
  cases event with
  | insmod ret cache object =>
      obtain ⟨⟨hstatics, hname⟩, hnext⟩ := Option.ite_none_right_eq_some.mp hstep
      rw [Option.some.injEq] at hnext
      exact hnext ▸ hinv.insmod hstatics hname cache object
  | rmmod ret =>
      unfold Vfs.step at hstep
      cases hstatics : state.statics with
      | none =>
          simp only [hstatics] at hstep
          contradiction
      | some statics =>
          simp only [hstatics] at hstep
          obtain ⟨⟨hmounts, hret⟩, hnext⟩ := Option.ite_none_right_eq_some.mp hstep
          rw [Option.some.injEq] at hnext
          exact hnext ▸ (hinv.rmmod hstatics hmounts hret).1
  | mount inode root =>
      exact (hinv.mount hstep).1
  | umount i =>
      obtain ⟨super, hi, rfl⟩ := Option.map_eq_some_iff.mp hstep
      exact hinv.umount hi

theorem Inv.initial : Inv 0 State.initial :=
  ⟨Ledger.Holds.empty, fun h => absurd rfl h, fun h => absurd rfl h⟩

/-! ## Loads that fail -/

/-- After `strands` loads that failed behind `register_filesystem`: with one the
file system stays registered without the module. -/
def Stranded (strands : Nat) (state : State) : Prop :=
  if strands = 0 then state.registered ≠ none ↔ state.statics ≠ none
  else state.registered ≠ none ∧ state.statics = none

variable {strands : Nat}

theorem Stranded.insmod (hstranded : Stranded strands state)
    (hstatics : state.statics = none) {ret : Int}
    (hname : ret = 0 → state.registered = none) (cache object : Bool) :
    Stranded (strands + if (Event.insmod ret cache object).strands then 1 else 0)
      (myfsInit state ret cache object).2 := by
  unfold myfsInit
  by_cases hret : ret = 0
  · have hzero : strands = 0 := by
      by_contra hstrands
      unfold Stranded at hstranded
      rw [if_neg hstrands] at hstranded
      exact hstranded.1 (hname hret)
    have hstrands : (Event.insmod ret cache object).strands = !(cache && object) := by
      simp [Event.strands, hret]
    rw [if_neg (not_not.mpr hret), hstrands, hzero]
    cases cache with
    | false => exact ⟨Option.some_ne_none _, hstatics⟩
    | true =>
        cases object with
        | false => exact ⟨Option.some_ne_none _, hstatics⟩
        | true =>
            exact ⟨fun _ => Option.some_ne_none _, fun _ => Option.some_ne_none _⟩
  · rw [if_pos hret]
    have hno : (Event.insmod ret cache object).strands = false := by
      simp [Event.strands, hret]
    rw [hno]
    exact hstranded

theorem Stranded.step (hstranded : Stranded strands state) (hinv : Inv invalid state)
    (hstep : Vfs.step state event = some next) :
    Stranded (strands + if event.strands then 1 else 0) next := by
  cases event with
  | insmod ret cache object =>
      obtain ⟨⟨hstatics, hname⟩, hnext⟩ := Option.ite_none_right_eq_some.mp hstep
      rw [Option.some.injEq] at hnext
      exact hnext ▸ hstranded.insmod hstatics hname cache object
  | rmmod ret =>
      unfold Vfs.step at hstep
      cases hstatics : state.statics with
      | none =>
          simp only [hstatics] at hstep
          contradiction
      | some statics =>
          simp only [hstatics] at hstep
          obtain ⟨⟨hmounts, hret⟩, hnext⟩ := Option.ite_none_right_eq_some.mp hstep
          rw [Option.some.injEq] at hnext
          have hregistered := (hinv.rmmod hstatics hmounts hret).2
          unfold Stranded at hstranded ⊢
          subst hnext
          split at hstranded
          · rename_i hzero
            subst hzero
            exact ⟨fun h => absurd hregistered h, fun h => absurd rfl h⟩
          · rw [hstatics] at hstranded
            exact absurd hstranded.2 nofun
  | mount inode root =>
      obtain ⟨-, hregistered, hstatics⟩ := hinv.mount hstep
      unfold Stranded at hstranded ⊢
      rw [hregistered, hstatics]
      exact hstranded
  | umount i =>
      obtain ⟨super, -, rfl⟩ := Option.map_eq_some_iff.mp hstep
      exact hstranded

theorem Stranded.initial : Stranded 0 State.initial :=
  ⟨fun h => absurd rfl h, fun h => absurd rfl h⟩

/-- Whatever the outcomes of the calls, in any order of loads, mounts, unmounts
and unloads: what is out is what the module and the mounted file systems hold and
the registration; an inode is given back wrongly exactly once for each
`d_make_root` that fails; the file system is registered exactly while the module
is loaded, unless a load has failed behind the registration, and then it stays
registered and the module is never loaded again. -/
theorem loads_accounted (hrun : run step State.initial events = some state) :
    state.ledger.Holds (events.countP Event.putsTwice) state.handles ∧
      Stranded (events.countP Event.strands) state ∧
      (state.mounts ≠ [] → state.statics ≠ none) := by
  have hinv := @run_count _ _ Vfs.step Inv Event.putsTwice
    (fun _ _ _ _ hinv hstep => hinv.step hstep) _ _ _ _ Inv.initial hrun
  have hboth := @run_count _ _ Vfs.step
    (fun strands state => (∃ invalid, Inv invalid state) ∧ Stranded strands state)
    Event.strands
    (fun _ _ _ _ ⟨⟨_, hinv⟩, hstranded⟩ hstep =>
      ⟨⟨_, hinv.step hstep⟩, hstranded.step hinv hstep⟩) _ _ _ _
    ⟨⟨0, Inv.initial⟩, Stranded.initial⟩ hrun
  rw [Nat.zero_add] at hinv hboth
  exact ⟨hinv.holds, hboth.2, hinv.mounted⟩

/-- A life of the module with a mount that fails. -/
def mountedTwice : List Event :=
  [.insmod 0 true true, .mount true true, .mount true false, .umount 0, .rmmod 0]

theorem loads_accounted_mounted_twice : ∃ state,
    run step State.initial mountedTwice = some state ∧
      state.ledger.Holds 1 state.handles ∧ Stranded 0 state := by
  have hsome : (run step State.initial mountedTwice).isSome := rfl
  obtain ⟨state, hrun⟩ := Option.isSome_iff_exists.mp hsome
  exact ⟨state, hrun, (loads_accounted hrun).1, (loads_accounted hrun).2.1⟩

end Vfs
end OsStuff
