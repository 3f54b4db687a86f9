import Mathlib.Tactic

/-!
# Trees whose branches have keys

The node at a path is found key by key.  `preorder cut` lists the nodes, a node
before the nodes below it and the branches in their order; it does not go below a
node that is cut off.
-/

namespace OsStuff
namespace Library

universe u v

mutual

inductive KeyedTree (κ : Type u) (α : Type v)
  | leaf (data : α)
  | branch (data : α) (children : Branches κ α)

inductive Branches (κ : Type u) (α : Type v)
  | nil
  | cons (key : κ) (child : KeyedTree κ α) (rest : Branches κ α)

end

variable {κ : Type u} {α : Type v} {cut : List κ → Bool} {path below : List κ} {key : κ}

/-- A node is cut off by a node above it. -/
def CutOff (cut : List κ → Bool) (path below : List κ) : Prop :=
  ∃ front, front <+: below ∧ front ≠ below ∧ cut (path ++ front) = true

theorem not_cutOff_nil : ¬ CutOff cut path [] := by
  rintro ⟨front, hfront, hne, -⟩
  exact hne (List.prefix_nil.mp hfront)

theorem cutOff_cons : CutOff cut path (key :: below) ↔
    cut path = true ∨ CutOff cut (path ++ [key]) below := by
  constructor
  · rintro ⟨front, hfront, hne, hcut⟩
    cases front with
    | nil => exact Or.inl (by simpa using hcut)
    | cons key' front =>
        obtain ⟨rfl, hfront'⟩ := List.cons_prefix_cons.mp hfront
        refine Or.inr ⟨front, hfront', fun heq => hne (heq ▸ rfl), ?_⟩
        simpa using hcut
  · rintro (hcut | ⟨front, hfront, hne, hcut⟩)
    · exact ⟨[], List.nil_prefix, by simp, by simpa using hcut⟩
    · refine ⟨key :: front, List.cons_prefix_cons.mpr ⟨rfl, hfront⟩, ?_, by simpa using hcut⟩
      exact fun heq => hne (List.cons.inj heq).2

variable [DecidableEq κ]

def Branches.keys : Branches κ α → List κ
  | .nil => []
  | .cons key _ rest => key :: rest.keys

/-- The branch at a key. -/
def Branches.find? : Branches κ α → κ → Option (KeyedTree κ α)
  | .nil, _ => none
  | .cons key child rest, k => if key = k then some child else rest.find? k

namespace KeyedTree

def data : KeyedTree κ α → α
  | .leaf data => data
  | .branch data _ => data

/-- The node at a path. -/
def get? : KeyedTree κ α → List κ → Option (KeyedTree κ α)
  | tree, [] => some tree
  | .leaf _, _ :: _ => none
  | .branch _ children, key :: path => (children.find? key).bind fun child => child.get? path

end KeyedTree

mutual

/-- The keys at every node are distinct, and every key meets `p`. -/
def KeyedTree.Valid (p : κ → Prop) : KeyedTree κ α → Prop
  | .leaf _ => True
  | .branch _ children => children.Valid p

def Branches.Valid (p : κ → Prop) : Branches κ α → Prop
  | .nil => True
  | .cons key child rest => p key ∧ rest.find? key = none ∧ child.Valid p ∧ rest.Valid p

end

mutual

/-- The number of branches on the longest way down. -/
def KeyedTree.height : KeyedTree κ α → Nat
  | .leaf _ => 0
  | .branch _ children => children.height + 1

def Branches.height : Branches κ α → Nat
  | .nil => 0
  | .cons _ child rest => max child.height rest.height

end

mutual

/-- The nodes of a tree at `path`, without those below a node that is cut off. -/
def KeyedTree.preorder (cut : List κ → Bool) (path : List κ) :
    KeyedTree κ α → List (List κ × KeyedTree κ α)
  | .leaf data => [(path, .leaf data)]
  | .branch data children =>
      (path, .branch data children) ::
        if cut path then [] else children.preorder cut path

def Branches.preorder (cut : List κ → Bool) (path : List κ) :
    Branches κ α → List (List κ × KeyedTree κ α)
  | .nil => []
  | .cons key child rest =>
      child.preorder cut (path ++ [key]) ++ rest.preorder cut path

end

/-- A path comes before the paths below it, and a branch before the later branches
of the same node. -/
def KeyedTree.Before (tree : KeyedTree κ α) (first second : List κ) : Prop :=
  (first <+: second ∧ first ≠ second) ∨
    ∃ path data children a b below below',
      tree.get? path = some (.branch data children) ∧ [a, b].Sublist children.keys ∧
        first = path ++ a :: below ∧ second = path ++ b :: below'

variable {p : κ → Prop} {tree child : KeyedTree κ α} {children : Branches κ α} {data : α}

theorem Branches.mem_keys_of_find? :
    ∀ {children : Branches κ α}, children.find? key = some child → key ∈ children.keys
  | .nil, hfind => nomatch hfind
  | .cons _ _ rest, hfind => by
      rw [find?] at hfind
      split at hfind
      · rename_i heq
        exact heq ▸ List.mem_cons_self
      · exact List.mem_cons_of_mem _ (mem_keys_of_find? hfind)

theorem Branches.find?_isSome_of_mem :
    ∀ {children : Branches κ α}, key ∈ children.keys → (children.find? key).isSome
  | .nil, hkey => nomatch hkey
  | .cons _ _ rest, hkey => by
      rw [find?]
      split
      · rfl
      · rename_i hne
        rcases List.mem_cons.mp hkey with rfl | hmem
        · exact absurd rfl hne
        · exact find?_isSome_of_mem hmem

theorem Branches.Valid.find? : ∀ {children : Branches κ α}, children.Valid p →
    children.find? key = some child → p key ∧ child.Valid p
  | .nil, _, hfind => nomatch hfind
  | .cons _ _ rest, ⟨hkey, _, hchild, hrest⟩, hfind => by
      rw [Branches.find?] at hfind
      split at hfind
      · rename_i heq
        rw [Option.some.injEq] at hfind
        exact ⟨heq ▸ hkey, hfind ▸ hchild⟩
      · exact hrest.find? hfind

theorem Branches.Valid.of_mem_keys (hvalid : children.Valid p) (hkey : key ∈ children.keys) :
    p key := by
  obtain ⟨child, hfind⟩ := Option.isSome_iff_exists.mp (find?_isSome_of_mem hkey)
  exact (hvalid.find? hfind).1

theorem Branches.Valid.keys_nodup :
    ∀ {children : Branches κ α}, children.Valid p → children.keys.Nodup
  | .nil, _ => List.nodup_nil
  | .cons key _ rest, ⟨_, hnone, _, hrest⟩ => by
      refine List.nodup_cons.mpr ⟨fun hmem => ?_, hrest.keys_nodup⟩
      have hsome := find?_isSome_of_mem hmem
      rw [hnone] at hsome
      cases hsome

theorem Branches.height_le_of_find? :
    ∀ {children : Branches κ α}, children.find? key = some child →
      child.height ≤ children.height
  | .nil, hfind => nomatch hfind
  | .cons _ _ rest, hfind => by
      rw [find?] at hfind
      split at hfind
      · rw [Option.some.injEq] at hfind
        exact hfind ▸ Nat.le_max_left _ _
      · exact Nat.le_trans (height_le_of_find? hfind) (Nat.le_max_right _ _)

namespace KeyedTree

@[simp] theorem get?_nil : tree.get? [] = some tree := by cases tree <;> rfl

theorem get?_branch : (branch data children).get? (key :: path) =
    (children.find? key).bind fun child => child.get? path := rfl

theorem get?_append :
    tree.get? (path ++ below) = (tree.get? path).bind fun node => node.get? below := by
  induction path generalizing tree with
  | nil => simp
  | cons key path ih =>
      cases tree with
      | leaf data => rfl
      | branch data children =>
          rw [List.cons_append, get?_branch, get?_branch]
          cases children.find? key with
          | none => rfl
          | some child => exact ih

theorem Valid.get? (hvalid : tree.Valid p) {node : KeyedTree κ α}
    (hget : tree.get? path = some node) : node.Valid p ∧ ∀ key ∈ path, p key := by
  induction path generalizing tree with
  | nil =>
      rw [get?_nil, Option.some.injEq] at hget
      exact ⟨hget ▸ hvalid, by simp⟩
  | cons key path ih =>
      cases tree with
      | leaf data => cases hget
      | branch data children =>
          obtain ⟨child, hfind, hchild⟩ := Option.bind_eq_some_iff.mp hget
          have hchildren : children.Valid p := hvalid
          obtain ⟨hkey, hvalid'⟩ := hchildren.find? hfind
          obtain ⟨hnode, hpath⟩ := ih hvalid' hchild
          exact ⟨hnode, List.forall_mem_cons.mpr ⟨hkey, hpath⟩⟩

theorem height_le_of_get? {node : KeyedTree κ α} (hget : tree.get? path = some node) :
    node.height ≤ tree.height := by
  induction path generalizing tree with
  | nil =>
      rw [get?_nil, Option.some.injEq] at hget
      exact hget ▸ Nat.le_refl _
  | cons key path ih =>
      cases tree with
      | leaf data => cases hget
      | branch data children =>
          obtain ⟨child, hfind, hchild⟩ := Option.bind_eq_some_iff.mp hget
          calc node.height ≤ child.height := ih hchild
            _ ≤ children.height := Branches.height_le_of_find? hfind
            _ ≤ (branch data children).height := Nat.le_succ _

theorem before_of_child {first second : List κ} (hfind : children.find? key = some child)
    (hbefore : child.Before first second) :
    (branch data children).Before (key :: first) (key :: second) := by
  rcases hbefore with ⟨hpref, hne⟩ | ⟨path, data', children', a, b, below, below', hrest⟩
  · exact Or.inl ⟨List.cons_prefix_cons.mpr ⟨rfl, hpref⟩,
      fun heq => hne (List.cons.inj heq).2⟩
  · obtain ⟨hget, hkeys, rfl, rfl⟩ := hrest
    refine Or.inr ⟨key :: path, data', children', a, b, below, below', ?_, hkeys, rfl, rfl⟩
    rw [get?_branch, hfind]
    exact hget

theorem before_of_keys {a b : κ} {first second : List κ}
    (hkeys : [a, b].Sublist children.keys) :
    (branch data children).Before (a :: first) (b :: second) :=
  Or.inr ⟨[], data, children, a, b, first, second, rfl, hkeys, rfl, rfl⟩

theorem before_of_rest {first second : List κ} (hnone : children.find? key = none)
    (hbefore : (branch data children).Before first second) :
    (branch data (.cons key child children)).Before first second := by
  rcases hbefore with hpref | ⟨path, data', children', a, b, below, below', hrest⟩
  · exact Or.inl hpref
  · obtain ⟨hget, hkeys, rfl, rfl⟩ := hrest
    cases path with
    | nil =>
        rw [get?_nil, Option.some.injEq, branch.injEq] at hget
        obtain ⟨rfl, rfl⟩ := hget
        exact before_of_keys (hkeys.trans (List.sublist_cons_self _ _))
    | cons key' path =>
        refine Or.inr ⟨key' :: path, data', children', a, b, below, below', ?_, hkeys, rfl, rfl⟩
        have hne : key ≠ key' := by
          rintro rfl
          rw [get?_branch, hnone] at hget
          cases hget
        rw [get?_branch, Branches.find?, if_neg hne]
        exact hget

theorem Valid.not_before_self (hvalid : tree.Valid p) : ¬ tree.Before path path := by
  rintro (⟨-, hne⟩ | ⟨front, data, children, a, b, below, below', hget, hkeys, rfl, heq⟩)
  · exact hne rfl
  · obtain ⟨rfl, -⟩ := List.cons.inj (List.append_cancel_left heq)
    have hchildren : children.Valid p := (hvalid.get? hget).1
    have hnodup : [a, a].Nodup := hkeys.nodup hchildren.keys_nodup
    simp at hnodup

end KeyedTree

mutual

/-- The nodes listed are those not below a node that is cut off. -/
theorem KeyedTree.Valid.mem_preorder {entry : List κ × KeyedTree κ α} :
    ∀ {tree : KeyedTree κ α} {path : List κ}, tree.Valid p →
      (entry ∈ tree.preorder cut path ↔ ∃ below, entry.1 = path ++ below ∧
        tree.get? below = some entry.2 ∧ ¬ CutOff cut path below)
  | .leaf data, path, _ => by
      rw [KeyedTree.preorder, List.mem_singleton]
      constructor
      · rintro rfl
        exact ⟨[], (List.append_nil _).symm, rfl, not_cutOff_nil⟩
      · rintro ⟨below, hpath, hget, -⟩
        -- A leaf has no node below it.
        cases below with
        | nil =>
            rw [KeyedTree.get?_nil, Option.some.injEq] at hget
            rw [List.append_nil] at hpath
            exact Prod.ext hpath hget.symm
        | cons key below => cases hget
  | .branch data children, path, hvalid => by
      have hchildren : children.Valid p := hvalid
      rw [KeyedTree.preorder, List.mem_cons]
      constructor
      · rintro (rfl | hmem)
        · exact ⟨[], (List.append_nil _).symm, rfl, not_cutOff_nil⟩
        · split at hmem
          · cases hmem
          · rename_i hcut
            obtain ⟨key, child, below, hfind, hpath, hget, hbelow⟩ :=
              hchildren.mem_preorder.mp hmem
            refine ⟨key :: below, hpath, ?_, ?_⟩
            · rw [KeyedTree.get?_branch, hfind]
              exact hget
            · rw [cutOff_cons]
              exact not_or.mpr ⟨hcut, hbelow⟩
      · rintro ⟨below, hpath, hget, hbelow⟩
        cases below with
        | nil =>
            rw [KeyedTree.get?_nil, Option.some.injEq] at hget
            rw [List.append_nil] at hpath
            exact Or.inl (Prod.ext hpath hget.symm)
        | cons key below =>
            obtain ⟨child, hfind, hchild⟩ := Option.bind_eq_some_iff.mp hget
            rw [cutOff_cons, not_or] at hbelow
            right
            rw [if_neg hbelow.1]
            exact hchildren.mem_preorder.mpr
              ⟨key, child, below, hfind, hpath, hchild, hbelow.2⟩

theorem Branches.Valid.mem_preorder {entry : List κ × KeyedTree κ α} :
    ∀ {children : Branches κ α} {path : List κ}, children.Valid p →
      (entry ∈ children.preorder cut path ↔ ∃ key child below,
        children.find? key = some child ∧ entry.1 = path ++ key :: below ∧
          child.get? below = some entry.2 ∧ ¬ CutOff cut (path ++ [key]) below)
  | .nil, path, _ => by
      constructor
      · rintro ⟨⟩
      · rintro ⟨key, child, below, ⟨⟩, -⟩
  | .cons key child rest, path, ⟨_, hnone, hchild, hrest⟩ => by
      rw [Branches.preorder, List.mem_append, hchild.mem_preorder, hrest.mem_preorder]
      constructor
      · rintro (⟨below, hpath, hget, hbelow⟩ | ⟨key', child', below, hfind, hmem⟩)
        · refine ⟨key, child, below, ?_, by simpa using hpath, hget, hbelow⟩
          rw [Branches.find?, if_pos rfl]
        · refine ⟨key', child', below, ?_, hmem⟩
          have hne : key ≠ key' := by
            rintro rfl
            rw [hnone] at hfind
            cases hfind
          rw [Branches.find?, if_neg hne]
          exact hfind
      · rintro ⟨key', child', below, hfind, hpath, hget, hbelow⟩
        rw [Branches.find?] at hfind
        split at hfind
        · rename_i heq
          rw [Option.some.injEq] at hfind
          subst heq hfind
          exact Or.inl ⟨below, by simpa using hpath, hget, hbelow⟩
        · exact Or.inr ⟨key', child', below, hfind, hpath, hget, hbelow⟩

end

mutual

theorem KeyedTree.Valid.pairwise_preorder : ∀ {tree : KeyedTree κ α} {path : List κ},
    tree.Valid p → (tree.preorder cut path).Pairwise fun a b => ∃ first second,
      a.1 = path ++ first ∧ b.1 = path ++ second ∧ tree.Before first second
  | .leaf data, path, _ => List.pairwise_singleton _ _
  | .branch data children, path, hvalid => by
      have hchildren : children.Valid p := hvalid
      rw [KeyedTree.preorder, List.pairwise_cons]
      constructor
      · intro entry hentry
        split at hentry
        · cases hentry
        · obtain ⟨key, child, below, -, hpath, -⟩ := hchildren.mem_preorder.mp hentry
          exact ⟨[], key :: below, (List.append_nil _).symm, hpath,
            Or.inl ⟨List.nil_prefix, by simp⟩⟩
      · split
        · exact List.Pairwise.nil
        · exact hchildren.pairwise_preorder data

theorem Branches.Valid.pairwise_preorder (data : α) : ∀ {children : Branches κ α}
    {path : List κ}, children.Valid p → (children.preorder cut path).Pairwise fun a b => ∃ first second,
      a.1 = path ++ first ∧ b.1 = path ++ second ∧
        (KeyedTree.branch data children).Before first second
  | .nil, path, _ => List.Pairwise.nil
  | .cons key child rest, path, ⟨_, hnone, hchild, hrest⟩ => by
      rw [Branches.preorder, List.pairwise_append]
      refine ⟨hchild.pairwise_preorder.imp ?_, (hrest.pairwise_preorder data).imp ?_, ?_⟩
      · rintro a b ⟨first, second, ha, hb, hbefore⟩
        have hfind : (Branches.cons key child rest).find? key = some child := by
          rw [Branches.find?, if_pos rfl]
        exact ⟨key :: first, key :: second, by simp [ha], by simp [hb],
          KeyedTree.before_of_child hfind hbefore⟩
      · rintro a b ⟨first, second, ha, hb, hbefore⟩
        exact ⟨first, second, ha, hb, KeyedTree.before_of_rest hnone hbefore⟩
      · intro a ha b hb
        obtain ⟨below, hpath, -⟩ := hchild.mem_preorder.mp ha
        obtain ⟨key', child', below', hfind, hpath', -⟩ := hrest.mem_preorder.mp hb
        refine ⟨key :: below, key' :: below', by simp [hpath], hpath',
          KeyedTree.before_of_keys ?_⟩
        exact (List.singleton_sublist.mpr (Branches.mem_keys_of_find? hfind)).cons_cons key

end

/-- No node is listed twice. -/
theorem KeyedTree.Valid.nodup_preorder (hvalid : tree.Valid p) :
    ((tree.preorder cut path).map Prod.fst).Nodup := by
  rw [List.nodup_iff_pairwise_ne, List.pairwise_map]
  apply hvalid.pairwise_preorder.imp
  rintro a b ⟨first, second, ha, hb, hbefore⟩ heq
  rw [ha, hb, List.append_cancel_left_eq] at heq
  exact hvalid.not_before_self (heq ▸ hbefore)

end Library
end OsStuff
