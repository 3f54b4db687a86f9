import OsStuff.BuddyAlloc.IntrusiveList

/-!
# Runs of the list operations

`Lists` says for each head node what the list of that head contains; a node
that heads no list has none.  `Op.refer` is an operation on such sequences,
`Op.run` the operation of the source on the links.  In every reachable state
the links hold the sequences, and an operation leaves the nodes of all other
lists, and all nodes of no list, as they are.
-/

namespace OsStuff
namespace BuddyAlloc
namespace IntrusiveList

open Library

variable {α : Type*} [DecidableEq α]

/-- The contents of every list, by its head. -/
abbrev Lists (α : Type*) := α → Option (List α)

/-- The node is neither the head nor an element of a list. -/
def Lists.OnNone (lists : Lists α) (node : α) : Prop :=
  ∀ list nodes, lists list = some nodes → node ∉ list :: nodes

/-- A call of a list operation.  The source does not pass the list to
`list_remove`. -/
inductive Op (α : Type*)
  | init (list : α)
  | push (list newLast : α)
  | pop (list : α)
  | remove (list entry : α)

namespace Op

/-- The list the call is about. -/
def list : Op α → α
  | init list => list
  | push list _ => list
  | pop list => list
  | remove list _ => list

/-- What the caller sees to: a new list or element is on no list yet, and an
element that is removed is on one. -/
def Allowed (lists : Lists α) : Op α → Prop
  | init list => lists.OnNone list
  | push list newLast => (∃ nodes, lists list = some nodes) ∧ lists.OnNone newLast
  | pop list => ∃ nodes, lists list = some nodes
  | remove list entry => ∃ nodes, lists list = some nodes ∧ entry ∈ nodes

/-- The call as the source carries it out, with the node it returns. -/
def run : Op α → Links α → Option α × Links α
  | init list, links => (none, listInit list links)
  | push list newLast, links => (none, listPush list newLast links)
  | pop list, links => listPop list links
  | remove _ entry, links => (none, listRemove entry links)

/-- The call on sequences. -/
def refer : Op α → Lists α → Option α × Lists α
  | init list, lists => (none, Function.update lists list (some []))
  | push list newLast, lists =>
      (none, Function.update lists list
        ((lists list).map fun nodes => nodes ++ [newLast]))
  | pop list, lists =>
      ((lists list).bind List.getLast?,
        Function.update lists list ((lists list).map List.dropLast))
  | remove list entry, lists =>
      (none, Function.update lists list
        ((lists list).map fun nodes => nodes.erase entry))

end Op

/-- What sequences of calls make of any memory in which there is no list. -/
inductive Built : Links α → Lists α → Prop
  | start (links : Links α) : Built links fun _ => none
  | step {links : Links α} {lists : Lists α} {op : Op α} :
      Built links lists → op.Allowed lists →
      Built (op.run links).2 (op.refer lists).2

variable {links : Links α} {lists : Lists α} {op : Op α}

/-! ## The invariant -/

/-- The lists are disjoint rings in the memory. -/
def Kept (links : Links α) (lists : Lists α) : Prop :=
  RingFamily links (fun list => (lists list).isSome) id
    fun list => (lists list).getD []

omit [DecidableEq α] in
theorem Kept.start (links : Links α) : Kept links fun _ => none := by
  constructor <;> simp

/-- A family in which the contents of one list were replaced. -/
theorem Kept.of_update {links' : Links α} {list : α} {nodes nodes' : List α}
    (hlist : lists list = some nodes)
    (hfamily : RingFamily links' (fun list => (lists list).isSome) id
      (Function.update (fun list => (lists list).getD []) list nodes')) :
    Kept links' (Function.update lists list (some nodes')) := by
  unfold Kept
  convert hfamily using 1
  · ext other
    by_cases hother : other = list
    · subst hother
      simp [hlist]
    · simp [hother]
  · funext other
    by_cases hother : other = list
    · subst hother
      simp
    · simp [hother]

omit [DecidableEq α] in
theorem Lists.OnNone.not_mem {node : α} (hnone : lists.OnNone node) (list : α)
    (hactive : (lists list).isSome) :
    node ∉ id list :: (lists list).getD [] := by
  obtain ⟨nodes, hnodes⟩ := Option.isSome_iff_exists.mp hactive
  simpa [hnodes] using hnone list nodes hnodes

/-- The last element and the elements before it. -/
theorem Kept.last (hkept : Kept links lists) {list : α} {nodes : List α}
    (hlist : lists list = some nodes) :
    listPop list links = (nodes.getLast?,
      if nodes = [] then links else listRemove (links.prev list) links) ∧
    ∀ last, nodes.getLast? = some last →
      links.prev list = last ∧ last ∈ nodes ∧ nodes.erase last = nodes.dropLast := by
  have hactive : (lists list).isSome := by simp [hlist]
  have hring : links.Ring list nodes := by
    simpa [hlist] using hkept.ring list hactive
  have hnodup : (list :: nodes).Nodup := by
    simpa [hlist] using hkept.nodup list hactive
  rcases List.eq_nil_or_concat nodes with rfl | ⟨front, last, hconcat⟩
  · refine ⟨?_, by simp⟩
    unfold listPop
    rw [if_pos hring.prev_head_nil]
    rfl
  · rw [List.concat_eq_append] at hconcat
    subst hconcat
    have hprev : links.prev list = last := hring.prev_head_concat
    have hlast : last ≠ list := by
      rintro rfl
      simp at hnodup
    constructor
    · unfold listPop
      rw [hprev, if_neg hlast]
      simp
    · intro last' hlast'
      rw [List.getLast?_concat, Option.some.injEq] at hlast'
      subst hlast'
      have hfront : last ∉ front := by
        have hnodup' := (List.nodup_cons.mp hnodup).2
        rw [List.nodup_append] at hnodup'
        exact fun hmem => hnodup'.2.2 last hmem last (by simp) rfl
      exact ⟨hprev, by simp, by simp [List.erase_append_right _ hfront]⟩

/-- Every call keeps the lists rings, and returns what the call on sequences
returns. -/
theorem Kept.step (hkept : Kept links lists) (hallowed : op.Allowed lists) :
    (op.run links).1 = (op.refer lists).1 ∧
      Kept (op.run links).2 (op.refer lists).2 := by
  cases op with
  -- Only list_init makes a list; the others change one that exists.
  | init list =>
      refine ⟨rfl, ?_⟩
      have hfresh : ¬ (lists list).isSome := by
        intro hactive
        exact hallowed.not_mem list hactive (by simp)
      have hfamily := RingFamily.selfLink hkept hfresh hallowed.not_mem
      simp only [Op.run, Op.refer, listInit_eq]
      unfold Kept
      convert hfamily using 1
      · rfl
      · ext other
        by_cases hother : other = list
        · subst hother
          simp
        · simp [hother]
      · funext other
        by_cases hother : other = list
        · subst hother
          simp
        · simp [hother]
  | push list newLast =>
      obtain ⟨⟨nodes, hlist⟩, hnone⟩ := hallowed
      refine ⟨rfl, ?_⟩
      have hactive : (lists list).isSome := by simp [hlist]
      have hfamily := RingFamily.append hkept hactive hnone.not_mem
      simp only [Op.run, Op.refer, listPush_eq, hlist, Option.map_some]
      apply Kept.of_update hlist
      simpa [hlist] using hfamily
  | pop list =>
      obtain ⟨nodes, hlist⟩ := hallowed
      have hactive : (lists list).isSome := by simp [hlist]
      obtain ⟨hpop, hlast⟩ := hkept.last hlist
      simp only [Op.run, Op.refer, hlist, Option.bind_some, Option.map_some, hpop]
      refine ⟨trivial, ?_⟩
      split
      · -- Nothing is removed from the empty list.
        rename_i hnil
        subst hnil
        rwa [List.dropLast_nil, ← hlist, Function.update_eq_self]
      · -- The last element is what head.prev points to, and list_remove takes it out.
        rename_i hne
        obtain ⟨hprev, -, herase⟩ := hlast _ (List.getLast?_eq_getLast_of_ne_nil hne)
        have hfamily := RingFamily.detach hkept hactive
          (show nodes.getLast hne ∈ (lists list).getD [] by simp [hlist])
        apply Kept.of_update hlist
        rw [hprev, ← herase, listRemove_eq]
        simpa [hlist] using hfamily
  | remove list entry =>
      obtain ⟨nodes, hlist, hmem⟩ := hallowed
      refine ⟨rfl, ?_⟩
      have hactive : (lists list).isSome := by simp [hlist]
      have hfamily := RingFamily.detach hkept hactive
        (show entry ∈ (lists list).getD [] by simpa [hlist] using hmem)
      simp only [Op.run, Op.refer, listRemove_eq, hlist, Option.map_some]
      apply Kept.of_update hlist
      simpa [hlist] using hfamily

theorem Built.kept (hbuilt : Built links lists) : Kept links lists := by
  induction hbuilt with
  | start links => exact Kept.start links
  | step _ hallowed ih => exact (ih.step hallowed).2

/-! ## What a call leaves alone -/

/-- The link memories agree at a node. -/
def SameAt (links links' : Links α) (node : α) : Prop :=
  links'.next node = links.next node ∧ links'.prev node = links.prev node

/-- Taking out an element changes the links of its neighbours. -/
theorem sameAt_listRemove {list entry node : α} {nodes : List α}
    (hring : links.Ring list nodes) (hentry : entry ∈ nodes)
    (hnode : node ∉ list :: nodes) :
    SameAt links (listRemove entry links) node := by
  obtain ⟨hprev, hnext⟩ := hring.neighbours hentry
  have hneprev : node ≠ links.prev entry := fun h => hnode (h ▸ hprev)
  have hnenext : node ≠ links.next entry := fun h => hnode (h ▸ hnext)
  rw [listRemove_eq]
  constructor
  · simp [Links.detach, hneprev]
  · simp [Links.detach, hnenext]

/-- A call only changes nodes that are on its list before or after it. -/
theorem Kept.sameAt (hkept : Kept links lists) (hallowed : op.Allowed lists)
    {node : α}
    (hbefore : ∀ nodes, lists op.list = some nodes → node ∉ op.list :: nodes)
    (hafter : ∀ nodes, (op.refer lists).2 op.list = some nodes →
      node ∉ op.list :: nodes) :
    SameAt links (op.run links).2 node := by
  have hring : ∀ {list : α} {nodes : List α}, lists list = some nodes →
      links.Ring list nodes := by
    intro list nodes hlist
    simpa [hlist] using hkept.ring list (by simp [hlist])
  cases op with
  | init list =>
      have hne : node ≠ list := by
        have hnot := hafter [] (by simp [Op.refer, Op.list])
        simpa [Op.list] using hnot
      simp [SameAt, Op.run, listInit_eq, Links.selfLink, hne]
  | push list newLast =>
      obtain ⟨⟨nodes, hlist⟩, -⟩ := hallowed
      have hnot := hafter (nodes ++ [newLast]) (by simp [Op.refer, Op.list, hlist])
      simp only [Op.list, List.mem_cons, List.mem_append, List.not_mem_nil,
        or_false, not_or] at hnot
      obtain ⟨hhead, hnodes, hnew⟩ := hnot
      -- The third store goes to the old last element, or to the head.
      have hlast : node ≠ links.prev list := by
        rcases List.eq_nil_or_concat nodes with hnil | ⟨front, last, hconcat⟩
        · subst hnil
          rwa [(hring hlist).prev_head_nil]
        · rw [List.concat_eq_append] at hconcat
          subst hconcat
          rw [(hring hlist).prev_head_concat]
          rintro rfl
          exact hnodes (by simp)
      simp [SameAt, Op.run, listPush_eq, Links.append, hhead, hnew, hlast]
  | pop list =>
      obtain ⟨nodes, hlist⟩ := hallowed
      obtain ⟨hpop, hlast⟩ := hkept.last hlist
      simp only [Op.run, hpop]
      split
      · exact ⟨rfl, rfl⟩
      · rename_i hne
        obtain ⟨hprev, hmem, -⟩ := hlast _ (List.getLast?_eq_getLast_of_ne_nil hne)
        rw [hprev]
        exact sameAt_listRemove (hring hlist) hmem (hbefore nodes hlist)
  | remove list entry =>
      obtain ⟨nodes, hlist, hmem⟩ := hallowed
      exact sameAt_listRemove (hring hlist) hmem (hbefore nodes hlist)

/-! ## The size -/

/-- Walking backwards from an element of a ring counts the elements up to it,
as long as the count is an `int`. -/
theorem listSizeFrom_eq {list last : α} {front back : List α} {fuel count : Nat}
    (hchain : links.Chain (list :: (front ++ [last] ++ back)))
    (hhead : list ∉ front ++ [last]) (hfuel : front.length + 1 < fuel) :
    listSizeFrom links list fuel last count =
      if count + (front.length + 1) ≤ intMax then some (count + (front.length + 1))
      else none := by
  induction front using List.reverseRecOn generalizing last back fuel count with
  | nil =>
      obtain ⟨fuel, rfl⟩ : ∃ k, fuel = k + 2 := ⟨fuel - 2, by simp at hfuel; omega⟩
      have hlast : last ≠ list := by
        rintro rfl
        simp at hhead
      have hprev : links.prev last = list := hchain.2.1
      simp only [listSizeFrom, if_pos hlast, hprev, ne_eq, not_true_eq_false,
        if_false, List.length_nil, Nat.zero_add]
      rfl
  | append_singleton front before ih =>
      obtain ⟨fuel, rfl⟩ : ∃ k, fuel = k + 1 := ⟨fuel - 1, by omega⟩
      have hlast : last ≠ list := by
        rintro rfl
        simp at hhead
      have hprev : links.prev last = before := by
        have hsplit : links.Chain ((list :: front) ++ before :: last :: back) := by
          simpa using hchain
        rw [Links.chain_append_cons] at hsplit
        exact hsplit.2.2.1
      have hchain' : links.Chain (list :: (front ++ [before] ++ (last :: back))) := by
        simpa using hchain
      have hrest := @ih before (last :: back) fuel (count + 1) hchain'
        (fun hmem => hhead (List.mem_append_left _ hmem))
        (by simp at hfuel; omega)
      rw [listSizeFrom, if_pos hlast, hprev, hrest]
      simp only [List.length_append, List.length_singleton]
      split_ifs <;> first | omega | rfl | (congr 1; omega)

/-- More fuel does not change an answer. -/
theorem listSizeFrom_mono {list begin : α} {fuel more count size : Nat}
    (hsize : listSizeFrom links begin fuel list count = some size) :
    listSizeFrom links begin (fuel + more) list count = some size := by
  induction fuel generalizing list count with
  | zero => exact absurd hsize (by simp [listSizeFrom])
  | succ fuel ih =>
      rw [Nat.succ_add, listSizeFrom]
      rw [listSizeFrom] at hsize
      split
      · rename_i hlist
        rw [if_pos hlist] at hsize
        split
        · rename_i hcount
          rw [if_pos hcount] at hsize
          exact ih hsize
        · rename_i hcount
          rw [if_neg hcount] at hsize
          exact hsize
      · rename_i hlist
        rwa [if_neg hlist] at hsize

/-- `list_size` is the length when that is an `int`; a longer list has no
size. -/
theorem listSize_eq {list : α} {nodes : List α} {fuel : Nat}
    (hring : links.Ring list nodes) (hhead : list ∉ nodes)
    (hfuel : nodes.length < fuel) :
    listSize fuel links list =
      if nodes.length ≤ intMax then some nodes.length else none := by
  rcases List.eq_nil_or_concat nodes with rfl | ⟨front, last, hconcat⟩
  · obtain ⟨fuel, rfl⟩ : ∃ k, fuel = k + 1 := ⟨fuel - 1, by simp at hfuel; omega⟩
    simp [listSize, listSizeFrom, hring.prev_head_nil]
  · rw [List.concat_eq_append] at hconcat
    subst hconcat
    unfold listSize
    rw [hring.prev_head_concat, listSizeFrom_eq
      (by simpa [Links.Ring] using hring) hhead (by simpa using hfuel)]
    simp

/-! ## Lists as sequences -/

/-- The circular list of a head holds the sequence. -/
structure Holds (links : Links α) (list : α) (nodes : List α) : Prop where
  /-- `next` from the head meets the elements in order and comes back. -/
  contents : ∀ fuel, nodes.length < fuel →
    links.walk list fuel (links.next list) = nodes
  inverse : ∀ node ∈ list :: nodes, links.next node ∈ list :: nodes ∧
    links.prev node ∈ list :: nodes ∧ links.prev (links.next node) = node ∧
      links.next (links.prev node) = node

/-- What a call does to the lists and to the nodes. -/
structure Agrees (op : Op α) (links : Links α) (lists : Lists α) : Prop where
  result : (op.run links).1 = (op.refer lists).1
  /-- Another list keeps its contents and its links. -/
  others : ∀ list nodes, list ≠ op.list → lists list = some nodes →
    (op.refer lists).2 list = some nodes ∧
      ∀ node ∈ list :: nodes, SameAt links (op.run links).2 node
  /-- So does a node that is on no list before and after the call. -/
  unused : ∀ node, lists.OnNone node → (op.refer lists).2.OnNone node →
    SameAt links (op.run links).2 node

theorem Kept.holds (hkept : Kept links lists) {list : α} {nodes : List α}
    (hlist : lists list = some nodes) : Holds links list nodes := by
  have hring : links.Ring list nodes := by
    simpa [hlist] using hkept.ring list (by simp [hlist])
  have hnodup : (list :: nodes).Nodup := by
    simpa [hlist] using hkept.nodup list (by simp [hlist])
  have hhead : list ∉ nodes := (List.nodup_cons.mp hnodup).1
  refine ⟨fun fuel hfuel => hring.walk_eq hhead hfuel, ?_⟩
  exact fun node hnode => hring.inverse hnode

theorem Kept.agrees (hkept : Kept links lists) (hallowed : op.Allowed lists) :
    Agrees op links lists := by
  obtain ⟨hresult, hkept'⟩ := hkept.step hallowed
  have hcontents : ∀ list, list ≠ op.list →
      (op.refer lists).2 list = lists list := by
    intro list hne
    cases op <;> exact Function.update_of_ne hne _ _
  refine ⟨hresult, ?_, ?_⟩
  · intro list nodes hne hlist
    have hlist' : (op.refer lists).2 list = some nodes :=
      (hcontents list hne).trans hlist
    refine ⟨hlist', fun node hnode => hkept.sameAt hallowed ?_ ?_⟩
    · intro nodes' hnodes'
      simpa [hnodes'] using hkept.apart list op.list (by simp [hlist])
        (by simp [hnodes']) hne node (by simpa [hlist] using hnode)
    · intro nodes' hnodes'
      simpa [hnodes'] using hkept'.apart list op.list (by simp [hlist'])
        (by simp [hnodes']) hne node (by simpa [hlist'] using hnode)
  · intro node hbefore hafter
    exact hkept.sameAt hallowed (hbefore op.list) (hafter op.list)

/-- In every state that calls of the list operations can reach, the lists are
sequences, and the next call does to them what the call on sequences does. -/
theorem lists_are_sequences (hbuilt : Built links lists) :
    (∀ list nodes, lists list = some nodes →
      Holds links list nodes ∧
        (nodes.length ≤ intMax → ∀ fuel, nodes.length < fuel →
          listSize fuel links list = some nodes.length)) ∧
      ∀ op : Op α, op.Allowed lists → Agrees op links lists := by
  have hkept := hbuilt.kept
  refine ⟨fun list nodes hlist => ⟨hkept.holds hlist, ?_⟩,
    fun op hallowed => hkept.agrees hallowed⟩
  intro hshort fuel hfuel
  have hring : links.Ring list nodes := by
    simpa [hlist] using hkept.ring list (by simp [hlist])
  have hnodup : (list :: nodes).Nodup := by
    simpa [hlist] using hkept.nodup list (by simp [hlist])
  rw [listSize_eq hring (List.nodup_cons.mp hnodup).1 hfuel, if_pos hshort]

/-- A list of any length is built by pushing one node after another. -/
theorem built_range (n : Nat) : ∃ (links : Links Nat) (lists : Lists Nat),
    Built links lists ∧ lists 0 = some (List.range' 1 n) ∧
      ∀ list, list ≠ 0 → lists list = none := by
  induction n with
  | zero =>
      refine ⟨_, _, @Built.step _ _ _ _ (.init 0) (.start ⟨id, id⟩) ?_, rfl, ?_⟩
      · intro list nodes hlist
        cases hlist
      · intro list hne
        simp [Op.refer, hne]
  | succ n ih =>
      obtain ⟨links, lists, hbuilt, hzero, hother⟩ := ih
      have hallowed : (Op.push 0 (n + 1)).Allowed lists := by
        refine ⟨⟨_, hzero⟩, fun list nodes hlist => ?_⟩
        by_cases hne : list = 0
        · subst hne
          rw [hzero, Option.some.injEq] at hlist
          subst hlist
          simp only [List.mem_cons, List.mem_range'_1]
          omega
        · rw [hother list hne] at hlist
          cases hlist
      refine ⟨_, _, hbuilt.step hallowed, ?_, fun list hne => ?_⟩
      · simp [Op.refer, hzero, List.range'_concat, Nat.add_comm]
      · rw [← hother list hne]
        exact Function.update_of_ne hne _ _

theorem lists_are_sequences_two : ∃ (links : Links Nat) (lists : Lists Nat),
    Built links lists ∧ Holds links 0 [1, 2] ∧
      (∀ fuel, 2 < fuel → listSize fuel links 0 = some 2) ∧
      Agrees (.remove 0 1) links lists := by
  obtain ⟨links, lists, hbuilt, hzero, -⟩ := built_range 2
  obtain ⟨hlists, hagrees⟩ := lists_are_sequences hbuilt
  obtain ⟨hholds, hsize⟩ := hlists 0 [1, 2] hzero
  exact ⟨links, lists, hbuilt, hholds, hsize (by decide),
    hagrees _ ⟨[1, 2], hzero, by decide⟩⟩

/-- A list of `2 ^ 31` elements has no size that is an `int`. -/
theorem long_list_has_no_size : ∃ (links : Links Nat) (lists : Lists Nat)
    (nodes : List Nat), Built links lists ∧ lists 0 = some nodes ∧
      ∀ fuel, listSize fuel links 0 ≠ some nodes.length := by
  obtain ⟨links, lists, hbuilt, hzero, -⟩ := built_range (intMax + 1)
  refine ⟨links, lists, _, hbuilt, hzero, fun fuel hsize => ?_⟩
  have hring : links.Ring 0 (List.range' 1 (intMax + 1)) := by
    simpa [hzero] using hbuilt.kept.ring 0 (by simp [hzero])
  have hfuel : (List.range' 1 (intMax + 1)).length < fuel + (intMax + 2) := by
    simp
    omega
  have hnone := listSize_eq hring (by simp) hfuel
  rw [List.length_range', if_neg (by omega)] at hnone
  unfold listSize at hsize hnone
  rw [listSizeFrom_mono hsize] at hnone
  exact absurd hnone (by simp)

end IntrusiveList
end BuddyAlloc
end OsStuff
