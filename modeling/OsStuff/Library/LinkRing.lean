import Mathlib.Tactic

/-!
# Circular doubly linked lists

An intrusive circular list keeps two links in each of its nodes and has a
distinguished head node that carries no element.  `Links` is the memory of all
nodes; `selfLink`, `append` and `detach` are the link updates of the three
textbook operations (make an empty ring, add a node before the head, take a
node out without knowing its ring).

`Ring links head nodes` says that following `next` from `head` visits exactly
`nodes` and returns, and that `prev` is the inverse.  `RingFamily` is a family
of rings that share one memory without sharing nodes; its three rules say that
each operation changes one member of the family as the corresponding operation
on sequences does and leaves the others alone.
-/

namespace OsStuff
namespace Library

/-- The two links of every node. -/
structure Links (α : Type*) where
  next : α → α
  prev : α → α

namespace Links

variable {α : Type*} {links links' : Links α}

/-- Consecutive nodes of the sequence are linked both ways. -/
def Chain (links : Links α) : List α → Prop
  | x :: y :: rest =>
      links.next x = y ∧ links.prev y = x ∧ Chain links (y :: rest)
  | _ => True

/-- The circular list with the given head and elements, in `next` order. -/
def Ring (links : Links α) (head : α) (nodes : List α) : Prop :=
  links.Chain (head :: nodes ++ [head])

@[simp] theorem chain_singleton (x : α) : links.Chain [x] := trivial

@[simp] theorem chain_cons_cons (x y : α) (rest : List α) :
    links.Chain (x :: y :: rest) ↔
      links.next x = y ∧ links.prev y = x ∧ links.Chain (y :: rest) :=
  Iff.rfl

/-- A chain splits at any of its nodes, which both halves keep. -/
theorem chain_append_cons (front : List α) (x : α) (back : List α) :
    links.Chain (front ++ x :: back) ↔
      links.Chain (front ++ [x]) ∧ links.Chain (x :: back) := by
  induction front with
  | nil => simp
  | cons a front ih =>
      cases front with
      | nil => simp [and_assoc]
      | cons b front =>
          simp only [List.cons_append, chain_cons_cons] at ih ⊢
          rw [ih]
          tauto

/-- A chain reads `next` of every node but the last and `prev` of every node
but the first. -/
theorem Chain.congr {nodes : List α} (hchain : links.Chain nodes)
    (hnext : ∀ x ∈ nodes.dropLast, links'.next x = links.next x)
    (hprev : ∀ x ∈ nodes.tail, links'.prev x = links.prev x) :
    links'.Chain nodes := by
  induction nodes with
  | nil => trivial
  | cons a nodes ih =>
      cases nodes with
      | nil => trivial
      | cons b nodes =>
          obtain ⟨hforth, hback, hrest⟩ := hchain
          refine ⟨(hnext a (by simp)).trans hforth,
            (hprev b (by simp)).trans hback, ih hrest ?_ ?_⟩
          · intro x hx
            exact hnext x (by simp [hx])
          · intro x hx
            exact hprev x (List.mem_cons_of_mem b hx)

/-- Moving a ring to a memory that agrees on all its nodes. -/
theorem Ring.congr {head : α} {nodes : List α} (hring : links.Ring head nodes)
    (hagree : ∀ x ∈ head :: nodes,
      links'.next x = links.next x ∧ links'.prev x = links.prev x) :
    links'.Ring head nodes := by
  have hmem : ∀ x ∈ head :: nodes ++ [head], x ∈ head :: nodes := by
    intro x hx
    simp only [List.cons_append, List.mem_cons, List.mem_append] at hx ⊢
    tauto
  refine Chain.congr hring ?_ ?_
  · intro x hx
    exact (hagree x (hmem x (List.mem_of_mem_dropLast hx))).1
  · intro x hx
    exact (hagree x (hmem x (List.mem_of_mem_tail hx))).2

/-- The empty ring points at itself. -/
theorem Ring.prev_head_nil {head : α} (hring : links.Ring head []) :
    links.prev head = head :=
  hring.2.1

/-- `prev` of the head is the last element. -/
theorem Ring.prev_head_concat {head last : α} {nodes : List α}
    (hring : links.Ring head (nodes ++ [last])) :
    links.prev head = last := by
  have hchain : links.Chain ((head :: nodes) ++ last :: [head]) := by
    simpa [Ring] using hring
  rw [chain_append_cons] at hchain
  exact hchain.2.2.1

/-- A nonempty list ends in some element. -/
theorem exists_concat_of_cons (x : α) (nodes : List α) :
    ∃ front last, x :: nodes = front ++ [last] :=
  ⟨(x :: nodes).dropLast, (x :: nodes).getLast (by simp),
    (List.dropLast_append_getLast (by simp)).symm⟩

/-- The neighbours of an element are elements or the head. -/
theorem Ring.neighbours {head a : α} {nodes : List α}
    (hring : links.Ring head nodes) (ha : a ∈ nodes) :
    links.prev a ∈ head :: nodes ∧ links.next a ∈ head :: nodes := by
  obtain ⟨front, back, hsplit⟩ := List.append_of_mem ha
  obtain ⟨before, x, hx⟩ := exists_concat_of_cons head front
  have hchain : links.Chain (before ++ x :: a :: (back ++ [head])) := by
    have hring' : links.Chain ((head :: front) ++ a :: (back ++ [head])) := by
      simpa [Ring, hsplit] using hring
    rw [hx] at hring'
    simpa using hring'
  rw [chain_append_cons] at hchain
  obtain ⟨-, -, hprev, hrest⟩ := hchain
  constructor
  · have hxmem : x ∈ head :: front := by rw [hx]; simp
    rw [hprev, hsplit]
    simp only [List.mem_cons, List.mem_append] at hxmem ⊢
    tauto
  · cases back with
    | nil => simp [hrest.1]
    | cons y back =>
        have hnext : links.next a = y := hrest.1
        simp [hnext, hsplit]

/-- Along a ring the two links are inverse. -/
theorem Ring.inverse {head a : α} {nodes : List α}
    (hring : links.Ring head nodes) (ha : a ∈ head :: nodes) :
    links.next a ∈ head :: nodes ∧ links.prev a ∈ head :: nodes ∧
      links.prev (links.next a) = a ∧ links.next (links.prev a) = a := by
  -- Along the nodes from the head, every node is the prev of its next.
  have hforth : ∀ front back, head :: nodes = front ++ a :: back →
      links.next a ∈ head :: nodes ∧ links.prev (links.next a) = a := by
    intro front back hsplit
    have hchain : links.Chain (front ++ a :: (back ++ [head])) := by
      have hring' : links.Chain ((head :: nodes) ++ [head]) := hring
      rw [hsplit] at hring'
      simpa using hring'
    rw [chain_append_cons] at hchain
    cases back with
    | nil =>
        have hnext : links.next a = head := hchain.2.1
        exact ⟨by simp [hnext], by rw [hnext]; exact hchain.2.2.1⟩
    | cons y back =>
        have hnext : links.next a = y := hchain.2.1
        exact ⟨by simp [hnext, hsplit], by rw [hnext]; exact hchain.2.2.1⟩
  -- Along the nodes to the head, every node is the next of its prev.
  have hback : ∀ front back, nodes ++ [head] = front ++ a :: back →
      links.prev a ∈ head :: nodes ∧ links.next (links.prev a) = a := by
    intro front back hsplit
    obtain ⟨before, x, hx⟩ := exists_concat_of_cons head front
    have hchain : links.Chain (before ++ x :: a :: back) := by
      have hring' : links.Chain (head :: (nodes ++ [head])) := hring
      rw [hsplit, ← List.cons_append, hx] at hring'
      simpa using hring'
    rw [chain_append_cons] at hchain
    have hprev : links.prev a = x := hchain.2.2.1
    have hxmem : x ∈ head :: front := by rw [hx]; simp
    refine ⟨?_, by rw [hprev]; exact hchain.2.1⟩
    rw [hprev]
    rcases List.mem_cons.mp hxmem with rfl | hmem
    · exact List.mem_cons_self
    · have hall : x ∈ nodes ++ [head] := by rw [hsplit]; simp [hmem]
      simp only [List.mem_append, List.mem_cons, List.not_mem_nil, or_false] at hall ⊢
      tauto
  obtain ⟨front, back, hsplit⟩ := List.append_of_mem ha
  have ha' : a ∈ nodes ++ [head] := by
    simp only [List.mem_append, List.mem_cons, List.not_mem_nil, or_false] at ha ⊢
    tauto
  obtain ⟨front', back', hsplit'⟩ := List.append_of_mem ha'
  obtain ⟨hnext, hprevnext⟩ := hforth front back hsplit
  obtain ⟨hprev, hnextprev⟩ := hback front' back' hsplit'
  exact ⟨hnext, hprev, hprevnext, hnextprev⟩

/-! ## Reading a ring back -/

section Walk

variable [DecidableEq α]

/-- The nodes met by following `next` from `x` until `head`, at most `fuel` of
them. -/
def walk (links : Links α) (head : α) : Nat → α → List α
  | 0, _ => []
  | fuel + 1, x =>
      if x = head then [] else x :: walk links head fuel (links.next x)

/-- Walking a ring from behind its head lists its elements in order. -/
theorem Chain.walk_eq {head x : α} {nodes : List α} {fuel : Nat}
    (hchain : links.Chain (x :: nodes ++ [head]))
    (hhead : head ∉ nodes) (hfuel : nodes.length < fuel) :
    links.walk head fuel (links.next x) = nodes := by
  induction nodes generalizing x fuel with
  | nil =>
      obtain ⟨fuel, rfl⟩ : ∃ k, fuel = k + 1 := ⟨fuel - 1, by omega⟩
      have hnext : links.next x = head := hchain.1
      simp [walk, hnext]
  | cons y nodes ih =>
      obtain ⟨fuel, rfl⟩ : ∃ k, fuel = k + 1 := ⟨fuel - 1, by omega⟩
      obtain ⟨hnext, -, hrest⟩ := hchain
      have hy : y ≠ head := by
        rintro rfl
        simp at hhead
      have htail : head ∉ nodes := by
        intro hmem
        exact hhead (List.mem_cons_of_mem y hmem)
      have hshort : nodes.length < fuel := by
        simp only [List.length_cons] at hfuel
        omega
      rw [hnext, walk, if_neg hy, ih hrest htail hshort]

theorem Ring.walk_eq {head : α} {nodes : List α} {fuel : Nat}
    (hring : links.Ring head nodes) (hhead : head ∉ nodes)
    (hfuel : nodes.length < fuel) :
    links.walk head fuel (links.next head) = nodes :=
  Chain.walk_eq hring hhead hfuel

/-- More fuel only lets the walk go further. -/
theorem mem_walk_of_le {head a x : α} {fuel fuel' : Nat} (hle : fuel ≤ fuel')
    (ha : a ∈ links.walk head fuel x) : a ∈ links.walk head fuel' x := by
  induction fuel generalizing x fuel' with
  | zero => exact absurd ha (by simp [walk])
  | succ fuel ih =>
      obtain ⟨fuel', rfl⟩ : ∃ k, fuel' = k + 1 := ⟨fuel' - 1, by omega⟩
      rw [walk] at ha ⊢
      split at ha
      · exact absurd ha (by simp)
      · rename_i hx
        rw [if_neg hx]
        rcases List.mem_cons.mp ha with rfl | ha
        · exact List.mem_cons_self
        · exact List.mem_cons_of_mem _ (ih (by omega) ha)

/-- The elements of a ring are the nodes met before the walk is back. -/
theorem Ring.mem_walk_iff {head a : α} {nodes : List α}
    (hring : links.Ring head nodes) (hhead : head ∉ nodes) :
    (∃ fuel, a ∈ links.walk head fuel (links.next head)) ↔ a ∈ nodes := by
  constructor
  · rintro ⟨fuel, ha⟩
    have hlong := mem_walk_of_le (le_max_left fuel (nodes.length + 1)) ha
    rwa [hring.walk_eq hhead (by omega)] at hlong
  · intro ha
    refine ⟨nodes.length + 1, ?_⟩
    rwa [hring.walk_eq hhead (by omega)]

end Walk

/-! ## The three operations -/

section Operations

variable [DecidableEq α]

/-- Make `head` an empty ring. -/
def selfLink (links : Links α) (head : α) : Links α where
  next := Function.update links.next head head
  prev := Function.update links.prev head head

/-- Put the node `a` at the end of the ring of `head`. -/
def append (links : Links α) (head a : α) : Links α where
  next := Function.update (Function.update links.next a head) (links.prev head) a
  prev := Function.update (Function.update links.prev a (links.prev head)) head a

/-- Take the node `a` out of whatever ring it is in. -/
def detach (links : Links α) (a : α) : Links α where
  next := Function.update links.next (links.prev a) (links.next a)
  prev := Function.update links.prev (links.next a) (links.prev a)

theorem ring_selfLink (links : Links α) (head : α) :
    (links.selfLink head).Ring head [] := by
  simp [Ring, selfLink]

theorem Ring.append {head a : α} {nodes : List α}
    (hring : links.Ring head nodes) (hnodup : (head :: nodes).Nodup)
    (ha : a ∉ head :: nodes) :
    (links.append head a).Ring head (nodes ++ [a]) := by
  obtain ⟨front, last, hsplit⟩ := exists_concat_of_cons head nodes
  -- The old ring is `front, last, head`, the new one `front, last, a, head`.
  have hold : links.Chain (front ++ last :: [head]) := by
    have hring' : links.Chain ((head :: nodes) ++ [head]) := hring
    rwa [hsplit, List.append_assoc, List.singleton_append] at hring'
  rw [chain_append_cons] at hold
  obtain ⟨hfront, hnext, hprev, -⟩ := hold
  have hlast : last ∈ head :: nodes := by rw [hsplit]; simp
  have halast : a ≠ last := fun h => ha (h ▸ hlast)
  have hahead : a ≠ head := fun h => ha (h ▸ List.mem_cons_self)
  have hnew : (links.append head a).Chain (front ++ last :: a :: [head]) := by
    rw [chain_append_cons]
    refine ⟨Chain.congr hfront ?_ ?_, ?_, ?_, ?_, ?_, trivial⟩
    · intro x hx
      have hxfront : x ∈ front := by simpa using hx
      have hxlast : x ≠ last := by
        rintro rfl
        rw [hsplit, List.nodup_append] at hnodup
        exact hnodup.2.2 _ hxfront _ (by simp) rfl
      have hxa : x ≠ a := by
        rintro rfl
        exact ha (by rw [hsplit]; simp [hxfront])
      simp [Links.append, hprev, hxlast, hxa]
    · intro x hx
      rw [← hsplit, List.tail_cons] at hx
      have hxhead : x ≠ head := by
        rintro rfl
        exact (List.nodup_cons.mp hnodup).1 hx
      have hxa : x ≠ a := by
        rintro rfl
        exact ha (List.mem_cons_of_mem _ hx)
      simp [Links.append, hxhead, hxa]
    · simp [Links.append, hprev]
    · simp [Links.append, hprev, hahead]
    · simp [Links.append, hprev, halast]
    · simp [Links.append]
  have hlist : head :: (nodes ++ [a]) ++ [head] =
      front ++ last :: a :: [head] := by
    rw [← List.cons_append, hsplit]
    simp
  unfold Ring
  rw [hlist]
  exact hnew

theorem Ring.detach {head a : α} {front back : List α}
    (hring : links.Ring head (front ++ a :: back))
    (hnodup : (head :: (front ++ a :: back)).Nodup) :
    (links.detach a).Ring head (front ++ back) := by
  obtain ⟨before, x, hx⟩ := exists_concat_of_cons head front
  obtain ⟨z, after, hz⟩ : ∃ z after, back ++ [head] = z :: after :=
    ⟨(back ++ [head]).head (by simp), (back ++ [head]).tail,
      (List.cons_head_tail (by simp)).symm⟩
  -- The old ring is `before, x, a, z, after`; `a` leaves it.
  have hold : links.Chain (before ++ x :: a :: z :: after) := by
    have hring' : links.Chain ((head :: front) ++ a :: (back ++ [head])) := by
      simpa [Ring] using hring
    rw [hx, hz] at hring'
    simpa using hring'
  rw [chain_append_cons] at hold
  obtain ⟨hbefore, hnextx, hpreva, hnexta, hprevz, hafter⟩ := hold
  have hdistinct : ∀ y ∈ head :: front, y ∉ back := by
    intro y hy hmem
    simp only [List.nodup_cons, List.nodup_append, List.mem_append,
      List.mem_cons, not_or] at hnodup
    rcases List.mem_cons.mp hy with rfl | hy
    · exact hnodup.1.2.2 hmem
    · exact hnodup.2.2.2 y hy y (Or.inr hmem) rfl
  have hheadfront : head ∉ front := by
    intro hmem
    simp only [List.nodup_cons, List.mem_append, not_or] at hnodup
    exact hnodup.1.1 hmem
  have hheadback : head ∉ back := hdistinct head (by simp)
  have hzmem : z ∈ back ++ [head] := by rw [hz]; simp
  have hxmem : x ∈ head :: front := by rw [hx]; simp
  have hnew : (links.detach a).Chain (before ++ x :: z :: after) := by
    rw [chain_append_cons]
    refine ⟨Chain.congr hbefore ?_ ?_, ?_, ?_, Chain.congr hafter ?_ ?_⟩
    · intro y hy
      have hybefore : y ∈ before := by simpa using hy
      have hyx : y ≠ x := by
        rintro rfl
        have hnodupFront : (head :: front).Nodup :=
          List.nodup_cons.mpr ⟨hheadfront,
            (List.nodup_append.mp (List.nodup_cons.mp hnodup).2).1⟩
        rw [hx, List.nodup_append] at hnodupFront
        exact hnodupFront.2.2 _ hybefore _ (by simp) rfl
      simp [Links.detach, hpreva, hyx]
    · intro y hy
      rw [← hx, List.tail_cons] at hy
      have hyz : y ≠ z := by
        rintro rfl
        rcases List.mem_append.mp hzmem with hmem | hmem
        · exact hdistinct _ (List.mem_cons_of_mem _ hy) hmem
        · exact hheadfront (List.mem_singleton.mp hmem ▸ hy)
      simp [Links.detach, hnexta, hyz]
    · simp [Links.detach, hpreva, hnexta]
    · simp [Links.detach, hpreva, hnexta]
    · intro y hy
      rw [← hz, List.dropLast_concat] at hy
      have hyx : y ≠ x := by
        rintro rfl
        exact hdistinct _ hxmem hy
      simp [Links.detach, hpreva, hyx]
    · intro y hy
      have hyz : y ≠ z := by
        rintro rfl
        have hnodupBack : (back ++ [head]).Nodup := by
          rw [List.nodup_append]
          refine ⟨?_, by simp, ?_⟩
          · exact (List.nodup_cons.mp (List.nodup_append.mp
              (List.nodup_cons.mp hnodup).2).2.1).2
          · intro u hu v hv huv
            exact hheadback (List.mem_singleton.mp hv ▸ huv ▸ hu)
        rw [hz] at hnodupBack
        exact (List.nodup_cons.mp hnodupBack).1 (by simpa using hy)
      simp [Links.detach, hnexta, hyz]
  have hlist : head :: (front ++ back) ++ [head] =
      before ++ x :: z :: after := by
    rw [← List.cons_append, List.append_assoc, hz, hx]
    simp
  unfold Ring
  rw [hlist]
  exact hnew

end Operations

end Links

/-! ## Families of rings in one memory -/

/-- Rings indexed by `ι`, one for each index in `active`, that share the
memory `links` and no node. -/
structure RingFamily {α ι : Type*} (links : Links α) (active : ι → Prop)
    (head : ι → α) (nodes : ι → List α) : Prop where
  ring : ∀ i, active i → links.Ring (head i) (nodes i)
  nodup : ∀ i, active i → (head i :: nodes i).Nodup
  apart : ∀ i j, active i → active j → i ≠ j →
    ∀ x ∈ head i :: nodes i, x ∉ head j :: nodes j

namespace RingFamily

variable {α ι : Type*} [DecidableEq ι] {links links' : Links α}
  {active : ι → Prop} {head : ι → α} {nodes : ι → List α}

omit [DecidableEq ι] in
/-- A family only depends on the links of its own nodes. -/
theorem congr (hfamily : RingFamily links active head nodes)
    (hagree : ∀ i, active i → ∀ x ∈ head i :: nodes i,
      links'.next x = links.next x ∧ links'.prev x = links.prev x) :
    RingFamily links' active head nodes where
  ring i hi := (hfamily.ring i hi).congr (hagree i hi)
  nodup := hfamily.nodup
  apart := hfamily.apart

/-- Replacing one ring of a family, when the new memory agrees with the old
one on the nodes of all other rings. -/
theorem replace (hfamily : RingFamily links active head nodes) {i : ι}
    {nodes' : List α}
    (hring : links'.Ring (head i) nodes') (hnodup : (head i :: nodes').Nodup)
    (hfresh : ∀ x ∈ nodes', x ∉ nodes i → ∀ j, active j → j ≠ i →
      x ∉ head j :: nodes j)
    (hi : active i)
    (hagree : ∀ j, active j → j ≠ i → ∀ x ∈ head j :: nodes j,
      links'.next x = links.next x ∧ links'.prev x = links.prev x) :
    RingFamily links' active head (Function.update nodes i nodes') := by
  -- The changed ring stays apart from the others: its nodes are old ones or fresh ones.
  have hother : ∀ j, active j → j ≠ i →
      ∀ x ∈ head i :: nodes', x ∉ head j :: nodes j := by
    intro j hj hji x hx
    by_cases hold : x ∈ head i :: nodes i
    · exact hfamily.apart i j hi hj (Ne.symm hji) x hold
    · rcases List.mem_cons.mp hx with rfl | hx
      · exact absurd List.mem_cons_self hold
      · exact hfresh x hx (fun h => hold (List.mem_cons_of_mem _ h)) j hj hji
  constructor
  · intro j hj
    by_cases hji : j = i
    · subst hji
      simpa using hring
    · simpa [hji] using (hfamily.ring j hj).congr (hagree j hj hji)
  · intro j hj
    by_cases hji : j = i
    · subst hji
      simpa using hnodup
    · simpa [hji] using hfamily.nodup j hj
  · -- Two rings: neither, the first or the second is the changed one.
    intro j k hj hk hjk x hx
    by_cases hji : j = i
    · subst hji
      have hkj : k ≠ j := Ne.symm hjk
      simp only [Function.update_self] at hx
      simpa [hkj] using hother k hk hkj x hx
    · by_cases hki : k = i
      · subst hki
        simp only [Function.update_of_ne hji] at hx
        simp only [Function.update_self]
        intro hmem
        exact hother j hj hji x hmem hx
      · simp only [Function.update_of_ne hji] at hx
        simpa [hki] using hfamily.apart j k hj hk hjk x hx

section Operations

variable [DecidableEq α]

/-- Appending a node of no ring extends one ring by it. -/
theorem append (hfamily : RingFamily links active head nodes) {i : ι} {a : α}
    (hi : active i) (ha : ∀ j, active j → a ∉ head j :: nodes j) :
    RingFamily (links.append (head i) a) active head
      (Function.update nodes i (nodes i ++ [a])) := by
  have hlast : links.prev (head i) ∈ head i :: nodes i := by
    rcases List.eq_nil_or_concat (nodes i) with hnil | ⟨front, last, hconcat⟩
    · have hring := hfamily.ring i hi
      rw [hnil] at hring
      simp [hring.prev_head_nil]
    · have hring := hfamily.ring i hi
      rw [hconcat, List.concat_eq_append] at hring
      simp [hring.prev_head_concat, hconcat]
  refine hfamily.replace
    ((hfamily.ring i hi).append (hfamily.nodup i hi) (ha i hi)) ?_ ?_ hi ?_
  · have hnodup := hfamily.nodup i hi
    have hai := ha i hi
    simp only [List.nodup_cons, List.mem_cons, not_or, List.mem_append,
      List.not_mem_nil, or_false, List.nodup_append] at hnodup hai ⊢
    refine ⟨⟨hnodup.1, Ne.symm hai.1⟩, hnodup.2, by simp, ?_⟩
    intro x hx y hy hxy
    subst hy
    exact hai.2 (hxy ▸ hx)
  · intro x hx hold j hj _
    rcases List.mem_append.mp hx with hx | hx
    · exact absurd hx hold
    · rw [List.mem_singleton.mp hx]
      exact ha j hj
  · intro j hj hji x hx
    have hxa : x ≠ a := fun h => ha j hj (h ▸ hx)
    have hxlast : x ≠ links.prev (head i) := by
      rintro rfl
      exact hfamily.apart i j hi hj (Ne.symm hji) _ hlast hx
    have hxhead : x ≠ head i := by
      rintro rfl
      exact hfamily.apart i j hi hj (Ne.symm hji) _ (by simp) hx
    simp [Links.append, hxa, hxlast, hxhead]

/-- Detaching an element of a ring erases it from that ring's sequence. -/
theorem detach (hfamily : RingFamily links active head nodes) {i : ι} {a : α}
    (hi : active i) (ha : a ∈ nodes i) :
    RingFamily (links.detach a) active head
      (Function.update nodes i ((nodes i).erase a)) := by
  obtain ⟨front, back, hsplit⟩ := List.append_of_mem ha
  have hnodup := hfamily.nodup i hi
  have hring := hfamily.ring i hi
  have hafront : a ∉ front := by
    have hnodup' := (List.nodup_cons.mp hnodup).2
    rw [hsplit, List.nodup_append] at hnodup'
    exact fun hmem => hnodup'.2.2 a hmem a (by simp) rfl
  have herase : (nodes i).erase a = front ++ back := by
    rw [hsplit, List.erase_append_right _ hafront, List.erase_cons_head]
  rw [hsplit] at hring
  have hnodupSplit : (head i :: (front ++ a :: back)).Nodup := by
    rw [← hsplit]
    exact hnodup
  have hnbrs := (hfamily.ring i hi).neighbours ha
  rw [herase]
  refine hfamily.replace (hring.detach hnodupSplit) ?_ ?_ hi ?_
  · exact hnodupSplit.sublist
      (List.Sublist.cons_cons _ (List.Sublist.append (List.Sublist.refl _)
        (List.sublist_cons_self _ _)))
  · intro x hx hold
    exact absurd (by rw [hsplit]; simp at hx ⊢; tauto) hold
  · intro j hj hji x hx
    have hxprev : x ≠ links.prev a := by
      rintro rfl
      exact hfamily.apart i j hi hj (Ne.symm hji) _ hnbrs.1 hx
    have hxnext : x ≠ links.next a := by
      rintro rfl
      exact hfamily.apart i j hi hj (Ne.symm hji) _ hnbrs.2 hx
    simp [Links.detach, hxprev, hxnext]

/-- A self-linked fresh head starts a new empty ring. -/
theorem selfLink (hfamily : RingFamily links active head nodes) {i : ι}
    (hi : ¬ active i) (hhead : ∀ j, active j → head i ∉ head j :: nodes j) :
    RingFamily (links.selfLink (head i)) (fun j => active j ∨ j = i) head
      (Function.update nodes i []) := by
  have hne : ∀ j, active j → j ≠ i := by
    rintro j hj rfl
    exact hi hj
  constructor
  · intro j hj
    by_cases hji : j = i
    · subst hji
      simpa using Links.ring_selfLink links (head j)
    · have hj' : active j := hj.resolve_right hji
      simp only [Function.update_of_ne hji]
      refine (hfamily.ring j hj').congr fun x hx => ?_
      have hxhead : x ≠ head i := fun h => hhead j hj' (h ▸ hx)
      simp [Links.selfLink, hxhead]
  · intro j hj
    by_cases hji : j = i
    · subst hji
      simp
    · simpa [hji] using hfamily.nodup j (hj.resolve_right hji)
  · intro j k hj hk hjk x hx
    by_cases hji : j = i
    · subst hji
      have hkj : k ≠ j := Ne.symm hjk
      simp only [Function.update_self, List.mem_singleton] at hx
      subst hx
      simpa [hkj] using hhead k (hk.resolve_right hkj)
    · simp only [Function.update_of_ne hji] at hx
      by_cases hki : k = i
      · subst hki
        simp only [Function.update_self, List.mem_singleton]
        rintro rfl
        exact hhead j (hj.resolve_right hji) hx
      · simpa [hki] using hfamily.apart j k (hj.resolve_right hji)
          (hk.resolve_right hki) hjk x hx

end Operations

end RingFamily
end Library
end OsStuff
