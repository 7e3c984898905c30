import MasterAI.RingList
import MasterAI.ListFamily
import MasterAI.StepRuns

namespace MasterAI

def maxQueue : Nat := 40

/-- The head of a queue or a message node of the area. -/
inductive QueueRef
  | head (queue : Nat)
  | node (i : Nat)
  deriving DecidableEq, Repr

/-- `CQUEUE_List`, with the links of its heads and nodes. What a node carries is left out. -/
structure QueueList where
  totalNode : Int
  queueNode : Nat → Int
  next : QueueRef → Option QueueRef
  previous : QueueRef → Option QueueRef

def QueueList.new : QueueList where
  totalNode := 0
  queueNode := fun _ => 0
  next := fun _ => none
  previous := fun _ => none

/-- The loop of `CreateQueue`, with the node that it links last. -/
def linkNodes : Nat → Nat → QueueRef → QueueList → QueueList × QueueRef
  | 0, _, q, l => (l, q)
  | left + 1, i, q, l =>
    linkNodes left (i + 1) (.node i)
      { l with
        next := Function.update l.next q (some (.node i))
        previous := Function.update l.previous (.node i) (some q) }

/-- `CreateQueue`, with its return code. The links of new heads and nodes are null. -/
def QueueList.createQueue (l : QueueList) (maxNumber : Int) : Int × QueueList :=
  if l.totalNode > 0 then (1, l)
  else if maxNumber ≤ 0 then (2, l)
  else
    let l : QueueList :=
      { totalNode := maxNumber
        queueNode := fun q => if q = 0 then maxNumber else 0
        next := fun _ => none
        previous := fun _ => none }
    let (l, q) := linkNodes maxNumber.toNat 0 (.head 0) l
    let l := { l with next := Function.update l.next q (l.next (.head 0)) }
    match l.next (.head 0) with
    | none => (0, l)
    | some first => (0, { l with previous := Function.update l.previous first (some q) })

/-- The end of the critical section of `GetBlockNode` and `GetNoBlockNode` for a queue that is not
empty: the node, the number that is left and the list, or nothing for a null pointer. -/
def QueueList.takeNode (l : QueueList) (queue : Nat) : Option (QueueRef × Int × QueueList) := do
  let l := { l with queueNode := Function.update l.queueNode queue (l.queueNode queue - 1) }
  let first ← l.next (.head queue)
  let p ← l.previous first
  if p = first then
    pure (p, l.queueNode queue,
      { l with
        next := Function.update l.next (.head queue) none
        previous := Function.update l.previous (.head queue) none })
  else do
    let before ← l.previous p
    pure (p, l.queueNode queue,
      { l with
        next := Function.update l.next before (some first)
        previous := Function.update l.previous first (some before) })

/-- The critical section of `SetNode`. -/
def QueueList.putNode (l : QueueList) (p : QueueRef) (queue : Nat) : Option QueueList :=
  let l := { l with
    next := Function.update l.next p none
    previous := Function.update l.previous p none
    queueNode := Function.update l.queueNode queue (l.queueNode queue + 1) }
  match l.next (.head queue) with
  | some q =>
    (l.previous q).map fun last =>
      let l := { l with next := Function.update l.next last (some p) }
      let l := { l with previous := Function.update l.previous p (l.previous q) }
      let l := { l with previous := Function.update l.previous q (some p) }
      let l := { l with next := Function.update l.next p (some q) }
      { l with next := Function.update l.next (.head queue) (some p) }
  | none => some
      { l with
        next := Function.update (Function.update l.next (.head queue) (some p)) p (some p)
        previous := Function.update l.previous p (some p) }

/-- The queues, and the nodes that callers hold. -/
structure QueueSystem where
  list : QueueList
  held : List (Nat × Nat)

inductive QueueCall
  | getBlockNode (caller : Nat) (queue : Int)
  | getNoBlockNode (caller : Nat) (queue : Int)
  | setNode (caller node : Nat) (queue : Int)
  deriving DecidableEq, Repr

/-- A call with its outcome: the node and the number that is left, or the return code. -/
inductive QueueEvent
  | got (caller : Nat) (queue : Int) (node : Option Nat) (left : Int)
  | set (caller node : Nat) (queue : Int) (code : Int)
  deriving DecidableEq, Repr

def validQueue (queue : Int) : Bool := decide (0 ≤ queue) && decide (queue < maxQueue)

/-- A caller takes a node from a queue that is not empty. -/
def QueueSystem.take (s : QueueSystem) (caller : Nat) (queue : Int) : Option (QueueEvent × QueueSystem) := do
  let (p, left, list) ← s.list.takeNode queue.toNat
  match p with
  | .head _ => none
  | .node i => pure (.got caller queue (some i) left, { list := list, held := (caller, i) :: s.held })

/-- One call. `GetBlockNode` goes on only once its queue is not empty, and `SetNode` is called with
a node that its caller holds. -/
def QueueSystem.call (s : QueueSystem) : QueueCall → Option (QueueEvent × QueueSystem)
  | .getBlockNode caller queue =>
    if !validQueue queue then some (.got caller queue none 0, s)
    else if s.list.next (.head queue.toNat) = none then none
    else s.take caller queue
  | .getNoBlockNode caller queue =>
    if !validQueue queue then some (.got caller queue none 0, s)
    else if s.list.next (.head queue.toNat) = none then some (.got caller queue none 0, s)
    else s.take caller queue
  | .setNode caller node queue =>
    if s.held.contains (caller, node) then
      if !validQueue queue then some (.set caller node queue 1, s)
      else (s.list.putNode (.node node) queue.toNat).map fun list =>
        (.set caller node queue 0, { list := list, held := s.held.erase (caller, node) })
    else none

def QueueStep (s : QueueSystem) (e : QueueEvent) (t : QueueSystem) : Prop := ∃ c, s.call c = some (e, t)

/-- The runs over the queues that `CreateQueue` makes, in every order of calls. -/
abbrev QueueRun (maxNumber : Int) :=
  StepRun QueueStep fun s => QueueList.new.createQueue maxNumber = (0, s.list) ∧ s.held = []

abbrev QueueTrace := List (Transition QueueSystem QueueEvent)

/-- The nodes that a queue has delivered, in order. -/
def delivered (queue : Nat) : QueueTrace → List Nat
  | [] => []
  | t :: older =>
    delivered queue older ++
      match t.event with
      | .got _ q (some i) _ => if q = queue then [i] else []
      | _ => []

/-- The nodes that were put into a queue, in order. -/
def putInto (queue : Nat) : QueueTrace → List Nat
  | [] => []
  | t :: older =>
    putInto queue older ++
      match t.event with
      | .set _ i q code => if q = queue ∧ code = 0 then [i] else []
      | _ => []

/-- The nodes of the area all start in the free queue. -/
def initialNodes (maxNumber : Int) (queue : Nat) : List Nat :=
  if queue = 0 then (List.range maxNumber.toNat).reverse else []

/-- The queues hold the nodes of `contents`, each list in the order of delivery: the links of every
queue form a ring of its nodes, its counter is their number, every node is in one queue or held by
one caller, and a queue has delivered and still holds what was put into it, in that order. -/
structure QueuesHold (maxNumber : Int) (trace : QueueTrace) (s : QueueSystem) (contents : Nat → List Nat) :
    Prop where
  ring : ∀ q < maxQueue, Ring s.list.next s.list.previous (s.list.next (.head q))
    ((contents q).reverse.map .node)
  counter : ∀ q < maxQueue, s.list.queueNode q = (contents q).length
  once : (gather maxQueue contents ++ s.held.map Prod.snd).Perm (List.range maxNumber.toNat)
  ordered : ∀ q < maxQueue, delivered q trace ++ contents q = initialNodes maxNumber q ++ putInto q trace

section

variable {l : QueueList} {q p : Nat} {rest : List Nat}

theorem nodup_nodes {xs : List Nat} (h : xs.Nodup) : (xs.reverse.map QueueRef.node).Nodup := by
  refine List.Nodup.map (fun a b hab => ?_) (List.nodup_reverse.mpr h)
  exact QueueRef.node.inj hab

/-- Everything outside a queue keeps its links. -/
def SameOutside (q : Nat) (xs : List Nat) (l l' : QueueList) : Prop :=
  ∀ r, r ≠ .head q → r ∉ xs.map QueueRef.node → l'.next r = l.next r ∧ l'.previous r = l.previous r

theorem exists_last_node (x : Nat) (ys : List Nat) :
    ∃ z, (x :: ys).getLast? = some z ∧ (QueueRef.node x :: ys.map .node).getLast? = some (.node z) := by
  cases hz : (x :: ys).getLast? with
  | none => simp at hz
  | some z =>
    refine ⟨z, rfl, ?_⟩
    rw [← List.map_cons, List.getLast?_map, hz]
    rfl

/-- The node at the end of the ring is taken. -/
theorem takeNode_spec (hring : Ring l.next l.previous (l.next (.head q)) ((p :: rest).reverse.map .node))
    (hnodup : (p :: rest).Nodup) :
    ∃ l', l.takeNode q = some (.node p, l.queueNode q - 1, l') ∧
      l'.queueNode = Function.update l.queueNode q (l.queueNode q - 1) ∧
      Ring l'.next l'.previous (l'.next (.head q)) (rest.reverse.map .node) ∧ SameOutside q (p :: rest) l l' := by
  have hnodes := nodup_nodes hnodup
  rw [List.reverse_cons, List.map_append] at hring hnodes
  unfold QueueList.takeNode
  cases hrest : rest.reverse with
  | nil =>
    rw [hrest] at hring
    have hfirst : l.next (.head q) = some (.node p) := hring.first
    have hprev : l.previous (.node p) = some (.node p) := hring.prev_first rfl
    simp only [hfirst, hprev, Option.bind_eq_bind, Option.bind_some, if_true, Function.update_self]
    refine ⟨_, rfl, rfl, ⟨?_, by simp, by simp⟩, fun r hr _ => ⟨?_, ?_⟩⟩
    · simp
    · exact Function.update_of_ne hr _ _
    · exact Function.update_of_ne hr _ _
  | cons x ys =>
    rw [hrest] at hring hnodes
    have hfirst : l.next (.head q) = some (.node x) := hring.first
    have hprev : l.previous (.node x) = some (.node p) := by
      refine hring.prev_first ?_
      exact List.getLast?_concat (l := (x :: ys).map QueueRef.node)
    obtain ⟨z, hz, hlast⟩ := exists_last_node x ys
    obtain ⟨hbefore, hpopped⟩ := hring.popBack hlast hnodes
    have hne : QueueRef.node p ≠ .node x := by
      intro heq
      simp [heq] at hnodes
    have hmem : ∀ y ∈ x :: ys, y ∈ p :: rest := by
      intro y hy
      rw [← hrest] at hy
      exact List.mem_cons_of_mem _ (List.mem_reverse.mp hy)
    simp only [hfirst, hprev, hbefore, Option.bind_eq_bind, Option.bind_some, if_neg hne, Function.update_self]
    refine ⟨_, rfl, rfl, ?_, fun r _ hr => ⟨?_, ?_⟩⟩
    · dsimp only
      rw [Function.update_of_ne (by simp : QueueRef.head q ≠ .node z)]
      exact hpopped
    · refine Function.update_of_ne ?_ _ _
      rintro rfl
      exact hr (List.mem_map_of_mem (hmem z (List.mem_of_mem_getLast? hz)))
    · refine Function.update_of_ne ?_ _ _
      rintro rfl
      exact hr (List.mem_map_of_mem (hmem x (by simp)))

/-- A node is put at the front of the ring. -/
theorem putNode_spec {xs : List Nat}
    (hring : Ring l.next l.previous (l.next (.head q)) (xs.reverse.map .node)) (hnodup : (p :: xs).Nodup) :
    ∃ l', l.putNode (.node p) q = some l' ∧
      l'.queueNode = Function.update l.queueNode q (l.queueNode q + 1) ∧
      Ring l'.next l'.previous (l'.next (.head q)) ((xs ++ [p]).reverse.map .node) ∧
      SameOutside q (p :: xs) l l' := by
  obtain ⟨hp, hxs⟩ := List.nodup_cons.mp hnodup
  have hfresh : ∀ r ∈ xs.reverse.map QueueRef.node, r ≠ .node p := by
    rintro r hr rfl
    obtain ⟨y, hy, heq⟩ := List.mem_map.mp hr
    cases heq
    exact hp (List.mem_reverse.mp hy)
  have hclean : Ring (Function.update l.next (.node p) none) (Function.update l.previous (.node p) none)
      (l.next (.head q)) (xs.reverse.map .node) :=
    hring.congr (fun r hr => Function.update_of_ne (hfresh r hr) _ _)
      fun r hr => Function.update_of_ne (hfresh r hr) _ _
  have hhead : Function.update l.next (.node p) none (.head q) = l.next (.head q) :=
    Function.update_of_ne (by simp) _ _
  have hother : ∀ r ∉ (p :: xs).map QueueRef.node, r ≠ .node p := by
    rintro r hr rfl
    exact hr (by simp)
  rw [List.reverse_append, List.reverse_singleton, List.singleton_append, List.map_cons]
  unfold QueueList.putNode
  cases hrest : xs.reverse with
  | nil =>
    rw [hrest] at hring
    have hfirst : l.next (.head q) = none := hring.first
    simp only [hhead, hfirst]
    refine ⟨_, rfl, rfl, ?_, fun r hr hout => ⟨?_, ?_⟩⟩
    · dsimp only
      rw [Function.update_of_ne (by simp : QueueRef.head q ≠ .node p), Function.update_self]
      exact .single (Function.update_self _ _ _) (Function.update_self _ _ _)
    · simp [Function.update_of_ne hr, Function.update_of_ne (hother r hout)]
    · simp [Function.update_of_ne (hother r hout)]
  | cons x ys =>
    rw [hrest] at hring hclean
    have hfirst : l.next (.head q) = some (.node x) := hring.first
    obtain ⟨z, hz, hlast⟩ := exists_last_node x ys
    have hprev := hclean.prev_first hlast
    have hnodes : (QueueRef.node p :: .node x :: ys.map .node).Nodup := by
      have := nodup_nodes hxs
      rw [hrest] at this hfresh
      exact List.nodup_cons.mpr ⟨fun hmem => hfresh _ hmem rfl, this⟩
    have hpushed := hclean.pushFront hlast hnodes
    have hmem : ∀ y ∈ x :: ys, y ∈ p :: xs := by
      intro y hy
      rw [← hrest] at hy
      exact List.mem_cons_of_mem _ (List.mem_reverse.mp hy)
    have hx : ∀ r ∉ (p :: xs).map QueueRef.node, r ≠ .node x := by
      rintro r hr rfl
      exact hr (List.mem_map_of_mem (hmem x (by simp)))
    have hzr : ∀ r ∉ (p :: xs).map QueueRef.node, r ≠ .node z := by
      rintro r hr rfl
      exact hr (List.mem_map_of_mem (hmem z (List.mem_of_mem_getLast? hz)))
    simp only [hhead, hfirst, hprev, Option.map_some]
    refine ⟨_, rfl, rfl, ?_, fun r hr hout => ⟨?_, ?_⟩⟩
    · dsimp only
      rw [Function.update_self]
      refine hpushed.congr (fun r hr => Function.update_of_ne ?_ _ _) fun r hr => rfl
      rintro rfl
      simp at hr
    · simp [Function.update_of_ne hr, Function.update_of_ne (hother r hout), Function.update_of_ne (hzr r hout)]
    · simp [Function.update_of_ne (hother r hout), Function.update_of_ne (hx r hout)]

end

/-- The nodes of the area from `i` on. -/
def areaNodes (i n : Nat) : List QueueRef := (List.range' i n).map .node

theorem areaNodes_succ (i n : Nat) : areaNodes i (n + 1) = .node i :: areaNodes (i + 1) n := by
  simp [areaNodes, List.range'_succ]

theorem mem_areaNodes {i n k : Nat} : QueueRef.node k ∈ areaNodes i n ↔ i ≤ k ∧ k < i + n := by
  simp [areaNodes, List.mem_range'_1]

/-- The loop of `CreateQueue` joins the nodes of the area one after another behind `q`. -/
theorem linkNodes_spec {left i : Nat} {q : QueueRef} {l l' : QueueList} {last : QueueRef}
    (hq : q ∉ areaNodes i left) (h : linkNodes left i q l = (l', last)) :
    (q :: areaNodes i left).IsChain (Joined l'.next l'.previous) ∧
      (q :: areaNodes i left).getLast? = some last ∧
      (∀ r ∉ q :: areaNodes i left, l'.next r = l.next r) ∧
      (∀ r ∉ areaNodes i left, l'.previous r = l.previous r) ∧ l'.queueNode = l.queueNode := by
  induction left generalizing i q l with
  | zero =>
    cases h
    simp [areaNodes]
  | succ left ih =>
    rw [areaNodes_succ] at hq ⊢
    have hfresh : QueueRef.node i ∉ areaNodes (i + 1) left := by
      rw [mem_areaNodes]
      omega
    obtain ⟨hrow, hlast, hnext, hprev, hcount⟩ := ih hfresh h
    refine ⟨List.isChain_cons_cons.mpr ⟨⟨?_, ?_⟩, hrow⟩, ?_, fun r hr => ?_, fun r hr => ?_, hcount⟩
    · rw [hnext q hq]
      exact Function.update_self _ _ _
    · rw [hprev _ hfresh]
      exact Function.update_self _ _ _
    · rw [List.getLast?_cons_cons]
      exact hlast
    · rw [hnext r fun hmem => hr (List.mem_cons_of_mem _ hmem)]
      refine Function.update_of_ne ?_ _ _
      rintro rfl
      simp at hr
    · rw [hprev r fun hmem => hr (List.mem_cons_of_mem _ hmem)]
      refine Function.update_of_ne ?_ _ _
      rintro rfl
      simp at hr

theorem areaNodes_nodup (i n : Nat) : (areaNodes i n).Nodup :=
  List.Nodup.map (fun _ _ h => QueueRef.node.inj h) List.nodup_range'

/-- `CreateQueue` puts the whole area into the free queue. -/
theorem createQueue_spec {maxNumber : Int} {l : QueueList}
    (h : QueueList.new.createQueue maxNumber = (0, l)) :
    0 < maxNumber ∧ Ring l.next l.previous (l.next (.head 0)) (areaNodes 0 maxNumber.toNat) ∧
      (∀ q, q ≠ 0 → l.next (.head q) = none) ∧ l.queueNode = fun q => if q = 0 then maxNumber else 0 := by
  unfold QueueList.createQueue at h
  split at h
  · simp at h
  split at h
  · simp at h
  next hpos =>
    have hpos : 0 < maxNumber := by omega
    obtain ⟨n, hn⟩ : ∃ n, maxNumber.toNat = n + 1 := ⟨maxNumber.toNat - 1, by omega⟩
    simp only at h
    generalize hlink : linkNodes maxNumber.toNat 0 (.head 0)
      { totalNode := maxNumber
        queueNode := fun q => if q = 0 then maxNumber else 0
        next := fun _ => none
        previous := fun _ => none } = linked at h
    obtain ⟨l', last⟩ := linked
    have hhead : QueueRef.head 0 ∉ areaNodes 0 maxNumber.toNat := by simp [areaNodes]
    obtain ⟨hrow, hlast, hnext, -, hcount⟩ := linkNodes_spec hhead hlink
    rw [hn, areaNodes_succ] at hrow hlast hnext ⊢
    obtain ⟨hjoined, hrow⟩ := List.isChain_cons_cons.mp hrow
    rw [List.getLast?_cons_cons] at hlast
    have hnode : ∀ q, last ≠ .head q := by
      rintro q rfl
      have := List.mem_of_mem_getLast? hlast
      simp [areaNodes] at this
    have hfirst : Function.update l'.next last (l'.next (.head 0)) (.head 0) = some (.node 0) := by
      rw [Function.update_of_ne (hnode 0).symm]
      exact hjoined.1
    rw [hjoined.1] at h hfirst
    simp only [hfirst, Prod.mk.injEq, true_and] at h
    subst h
    refine ⟨hpos, ?_, fun q hq => ?_, hcount⟩
    · dsimp only
      rw [hfirst]
      refine Ring.ofRow hrow hlast ?_
      rw [← areaNodes_succ]
      exact areaNodes_nodup 0 _
    · dsimp only
      rw [Function.update_of_ne (hnode q).symm, hnext]
      simp [areaNodes, hq]

theorem QueuesHold.start {maxNumber : Int} {s : QueueSystem}
    (h : QueueList.new.createQueue maxNumber = (0, s.list)) (hheld : s.held = []) :
    QueuesHold maxNumber [] s (initialNodes maxNumber) := by
  obtain ⟨hpos, hring, hempty, hcount⟩ := createQueue_spec h
  refine ⟨fun q _ => ?_, fun q _ => ?_, ?_, fun q _ => by simp [delivered, putInto]⟩
  · by_cases hq : q = 0
    · subst hq
      simpa [initialNodes, areaNodes, List.range_eq_range'] using hring
    · rw [hempty q hq]
      simp only [initialNodes, if_neg hq, List.reverse_nil, List.map_nil]
      exact ⟨rfl, by simp, by simp⟩
  · rw [hcount]
    by_cases hq : q = 0
    · simp [initialNodes, hq]
      omega
    · simp [initialNodes, hq]
  · rw [hheld, List.map_nil, List.append_nil]
    have hperm := gather_perm (q := 0) (m := maxQueue) (by decide) (initialNodes maxNumber)
    have hrest : ((List.range maxQueue).erase 0).flatMap (initialNodes maxNumber) = [] := by
      apply List.flatMap_eq_nil_iff.mpr
      intro q hq
      exact if_neg fun heq => List.nodup_range.not_mem_erase (heq ▸ hq)
    rw [hrest, List.append_nil] at hperm
    exact hperm.trans (List.reverse_perm _)

section

variable {maxNumber : Int} {trace : QueueTrace} {s : QueueSystem} {contents : Nat → List Nat} {q : Nat}

theorem QueuesHold.nodup (h : QueuesHold maxNumber trace s contents) :
    (gather maxQueue contents ++ s.held.map Prod.snd).Nodup :=
  h.once.nodup_iff.mpr List.nodup_range

theorem QueuesHold.nodup_queue (h : QueuesHold maxNumber trace s contents) (hq : q < maxQueue) :
    (contents q).Nodup :=
  nodup_of_gather (List.nodup_append.mp h.nodup).1 hq

theorem QueuesHold.head_eq_none_iff (h : QueuesHold maxNumber trace s contents) (hq : q < maxQueue) :
    s.list.next (.head q) = none ↔ contents q = [] := by
  rw [(h.ring q hq).first]
  cases hc : (contents q).reverse with
  | nil => simpa using hc
  | cons x xs =>
    have : contents q ≠ [] := by
      rintro hnil
      simp [hnil] at hc
    simp [this]

/-- A change of one queue leaves the rings of the others. -/
theorem QueuesHold.ring_other (h : QueuesHold maxNumber trace s contents) {l' : QueueList} {xs : List Nat}
    (hsame : SameOutside q xs s.list l') {q' : Nat} (hq' : q' < maxQueue) (hne : q' ≠ q)
    (hout : ∀ x ∈ contents q', x ∉ xs) :
    Ring l'.next l'.previous (l'.next (.head q')) ((contents q').reverse.map .node) := by
  have hhead := hsame (.head q') (by simp [hne]) (by simp)
  rw [hhead.1]
  refine (h.ring q' hq').congr (fun r hr => ?_) fun r hr => ?_
  all_goals
    obtain ⟨x, hx, rfl⟩ := List.mem_map.mp hr
    have hx' := hout x (List.mem_reverse.mp hx)
  · exact (hsame (.node x) (by simp) (by simpa using hx')).1
  · exact (hsame (.node x) (by simp) (by simpa using hx')).2

/-- A queue that is not empty delivers its oldest node to the caller. -/
theorem QueuesHold.take (h : QueuesHold maxNumber trace s contents) (hq : q < maxQueue) {p : Nat} {rest : List Nat}
    (hcontents : contents q = p :: rest) (caller : Nat) :
    ∃ left t, s.take caller q = some (.got caller q (some p) left, t) ∧
      QueuesHold maxNumber (⟨s, .got caller q (some p) left, t⟩ :: trace) t (Function.update contents q rest) := by
  have hnodup := h.nodup_queue hq
  have hring := h.ring q hq
  rw [hcontents] at hnodup hring
  obtain ⟨l', htake, hcount, hring', hsame⟩ := takeNode_spec hring hnodup
  refine ⟨s.list.queueNode q - 1, { list := l', held := (caller, p) :: s.held }, ?_, ?_, ?_, ?_, ?_⟩
  · simp [QueueSystem.take, htake]
  · intro q' hq'
    by_cases hne : q' = q
    · subst hne
      rwa [Function.update_self]
    · rw [Function.update_of_ne hne]
      refine h.ring_other hsame hq' hne fun x hx hmem => ?_
      exact notMem_of_gather (List.nodup_append.mp h.nodup).1 hq' hq (Ne.symm hne) hx (hcontents ▸ hmem)
  · intro q' hq'
    have hcounter := h.counter q' hq'
    simp only [hcount]
    by_cases hne : q' = q
    · subst hne
      rw [Function.update_self, Function.update_self, hcounter, hcontents]
      simp
    · rw [Function.update_of_ne hne, Function.update_of_ne hne, hcounter]
  · have hupdate := gather_update hq contents rest
    rw [hcontents, List.append_cons, List.perm_append_right_iff] at hupdate
    refine List.Perm.trans ?_ h.once
    rw [List.map_cons, List.append_cons]
    exact hupdate.append_right _
  · intro q' hq'
    have hordered := h.ordered q' hq'
    simp only [delivered, putInto, List.append_nil]
    by_cases hne : q' = q
    · subst hne
      rw [hcontents] at hordered
      simpa using hordered
    · rw [Function.update_of_ne hne, if_neg (by omega), List.append_nil]
      exact hordered

/-- A node that its caller holds becomes the youngest of the queue. -/
theorem QueuesHold.put (h : QueuesHold maxNumber trace s contents) (hq : q < maxQueue) {caller p : Nat}
    (hheld : (caller, p) ∈ s.held) :
    ∃ l', s.list.putNode (.node p) q = some l' ∧
      QueuesHold maxNumber
        (⟨s, .set caller p q 0, { list := l', held := s.held.erase (caller, p) }⟩ :: trace)
        { list := l', held := s.held.erase (caller, p) } (Function.update contents q (contents q ++ [p])) := by
  have hp : p ∈ s.held.map Prod.snd := List.mem_map_of_mem hheld
  have hout : ∀ q' < maxQueue, p ∉ contents q' := by
    intro q' hq' hmem
    exact (List.nodup_append.mp h.nodup).2.2 p (mem_gather hq' hmem) p hp rfl
  obtain ⟨l', hput, hcount, hring', hsame⟩ := putNode_spec (h.ring q hq)
    (List.nodup_cons.mpr ⟨hout q hq, h.nodup_queue hq⟩)
  refine ⟨l', hput, ?_, ?_, ?_, ?_⟩
  · intro q' hq'
    by_cases hne : q' = q
    · subst hne
      rwa [Function.update_self]
    · rw [Function.update_of_ne hne]
      refine h.ring_other hsame hq' hne fun x hx hmem => ?_
      rcases List.mem_cons.mp hmem with rfl | hmem
      · exact hout q' hq' hx
      · exact notMem_of_gather (List.nodup_append.mp h.nodup).1 hq' hq (Ne.symm hne) hx hmem
  · intro q' hq'
    have hcounter := h.counter q' hq'
    simp only [hcount]
    by_cases hne : q' = q
    · subst hne
      rw [Function.update_self, Function.update_self, hcounter]
      simp
    · rw [Function.update_of_ne hne, Function.update_of_ne hne, hcounter]
  · have hupdate := gather_update hq contents (contents q ++ [p])
    have hgather : (gather maxQueue (Function.update contents q (contents q ++ [p]))).Perm
        (gather maxQueue contents ++ [p]) := by
      refine (List.perm_append_right_iff (contents q)).mp (hupdate.trans ?_)
      rw [List.append_assoc]
      exact List.perm_append_comm.append_left _
    have hperm := (List.perm_cons_erase hheld).map Prod.snd
    refine List.Perm.trans ?_ h.once
    refine (hgather.append_right _).trans ?_
    rw [List.append_assoc]
    exact hperm.symm.append_left _
  · intro q' hq'
    have hordered := h.ordered q' hq'
    simp only [delivered, putInto, List.append_nil]
    by_cases hne : q' = q
    · subst hne
      rw [Function.update_self, ← List.append_assoc, hordered]
      simp
    · rw [Function.update_of_ne hne, if_neg (by omega), List.append_nil]
      exact hordered

theorem validQueue_iff {queue : Int} : validQueue queue = true ↔ ∃ q < maxQueue, queue = (q : Nat) := by
  simp only [validQueue, Bool.and_eq_true, decide_eq_true_eq]
  constructor
  · rintro ⟨hlo, hhi⟩
    exact ⟨queue.toNat, by omega, by omega⟩
  · rintro ⟨q, hq, rfl⟩
    omega

/-- What a call does to a queue that it may use. -/
theorem QueuesHold.getNode (h : QueuesHold maxNumber trace s contents) (hq : q < maxQueue)
    (hsome : s.list.next (.head q) ≠ none) (caller : Nat) :
    ∃ e t, s.take caller q = some (e, t) ∧ ∃ contents', QueuesHold maxNumber (⟨s, e, t⟩ :: trace) t contents' := by
  cases hcontents : contents q with
  | nil => exact absurd ((h.head_eq_none_iff hq).mpr hcontents) hsome
  | cons p rest =>
    obtain ⟨left, t, htake, hconserved⟩ := h.take hq hcontents caller
    exact ⟨_, t, htake, _, hconserved⟩

/-- A call that neither takes nor puts a node changes nothing. -/
theorem QueuesHold.idle (h : QueuesHold maxNumber trace s contents) {e : QueueEvent}
    (he : (∃ caller queue left, e = .got caller queue none left) ∨
      ∃ caller node queue, e = .set caller node queue 1) :
    QueuesHold maxNumber (⟨s, e, s⟩ :: trace) s contents := by
  refine ⟨h.ring, h.counter, h.once, fun q hq => ?_⟩
  have hordered := h.ordered q hq
  rcases he with ⟨caller, queue, left, rfl⟩ | ⟨caller, node, queue, rfl⟩
  · simpa [delivered, putInto] using hordered
  · simpa [delivered, putInto] using hordered

theorem QueuesHold.step (h : QueuesHold maxNumber trace s contents) {e : QueueEvent} {t : QueueSystem}
    (hstep : QueueStep s e t) : ∃ contents', QueuesHold maxNumber (⟨s, e, t⟩ :: trace) t contents' := by
  obtain ⟨c, hc⟩ := hstep
  cases c with
  | getBlockNode caller queue =>
    simp only [QueueSystem.call] at hc
    split at hc
    · cases Option.some.inj hc
      exact ⟨contents, h.idle (Or.inl ⟨_, _, _, rfl⟩)⟩
    next hvalid =>
      obtain ⟨q, hq, rfl⟩ := validQueue_iff.mp (by simpa using hvalid)
      split at hc
      · simp at hc
      next hsome =>
        obtain ⟨e', t', htake, hconserved⟩ := h.getNode hq hsome caller
        cases htake.symm.trans hc
        exact hconserved
  | getNoBlockNode caller queue =>
    simp only [QueueSystem.call] at hc
    split at hc
    · cases Option.some.inj hc
      exact ⟨contents, h.idle (Or.inl ⟨_, _, _, rfl⟩)⟩
    next hvalid =>
      obtain ⟨q, hq, rfl⟩ := validQueue_iff.mp (by simpa using hvalid)
      split at hc
      · cases Option.some.inj hc
        exact ⟨contents, h.idle (Or.inl ⟨_, _, _, rfl⟩)⟩
      next hsome =>
        obtain ⟨e', t', htake, hconserved⟩ := h.getNode hq hsome caller
        cases htake.symm.trans hc
        exact hconserved
  | setNode caller node queue =>
    simp only [QueueSystem.call] at hc
    split at hc
    next hheld =>
      split at hc
      · cases Option.some.inj hc
        exact ⟨contents, h.idle (Or.inr ⟨_, _, _, rfl⟩)⟩
      next hvalid =>
        obtain ⟨q, hq, rfl⟩ := validQueue_iff.mp (by simpa using hvalid)
        obtain ⟨l', hput, hconserved⟩ := h.put hq (List.contains_iff_mem.mp hheld)
        rw [Int.toNat_natCast, hput] at hc
        cases Option.some.inj hc
        exact ⟨_, hconserved⟩
    next => simp at hc

/-- The calls that return at once: a look without waiting, a wait for a queue that is not empty, and
the return of a node that the caller holds. -/
structure CallsReturn (s : QueueSystem) (contents : Nat → List Nat) : Prop where
  noBlock : ∀ caller queue, (s.call (.getNoBlockNode caller queue)).isSome = true
  block : ∀ caller, ∀ q < maxQueue, contents q ≠ [] → (s.call (.getBlockNode caller q)).isSome = true
  set : ∀ caller node queue, (caller, node) ∈ s.held → (s.call (.setNode caller node queue)).isSome = true

theorem QueuesHold.callsReturn (h : QueuesHold maxNumber trace s contents) : CallsReturn s contents := by
  refine ⟨fun caller queue => ?_, fun caller q hq hne => ?_, fun caller node queue hheld => ?_⟩
  · simp only [QueueSystem.call]
    split
    · rfl
    next hvalid =>
      obtain ⟨q, hq, rfl⟩ := validQueue_iff.mp (by simpa using hvalid)
      split
      · rfl
      next hsome =>
        obtain ⟨e, t, htake, -⟩ := h.getNode hq hsome caller
        rw [htake]
        rfl
  · have hvalid : validQueue q = true := validQueue_iff.mpr ⟨q, hq, rfl⟩
    have hsome : s.list.next (.head q) ≠ none := fun hnone => hne ((h.head_eq_none_iff hq).mp hnone)
    obtain ⟨e, t, htake, -⟩ := h.getNode hq hsome caller
    simp [QueueSystem.call, hvalid, hsome, htake]
  · simp only [QueueSystem.call, if_pos (List.contains_iff_mem.mpr hheld)]
    split
    · rfl
    next hvalid =>
      obtain ⟨q, hq, rfl⟩ := validQueue_iff.mp (by simpa using hvalid)
      obtain ⟨l', hput, -⟩ := h.put hq hheld
      simp [hput]

end

/-- In every run the queues conserve their nodes and deliver them in the order in which they were put. -/
theorem queues_conserved {maxNumber : Int} {trace : QueueTrace} {s : QueueSystem}
    (run : QueueRun maxNumber trace s) :
    ∃ contents, QueuesHold maxNumber trace s contents ∧ CallsReturn s contents := by
  have hconserved : ∃ contents, QueuesHold maxNumber trace s contents := by
    induction run with
    | start hstart => exact ⟨_, QueuesHold.start hstart.1 hstart.2⟩
    | next _ hstep ih =>
      obtain ⟨contents, h⟩ := ih
      exact h.step hstep
  obtain ⟨contents, h⟩ := hconserved
  exact ⟨contents, h, h.callsReturn⟩

def threeQueues : QueueSystem where
  list := (QueueList.new.createQueue 3).2
  held := []

/-- Two callers pass the nodes of the free queue through the read queue. -/
def passedNodes : List QueueCall :=
  [.getNoBlockNode 1 0, .getBlockNode 2 0, .setNode 1 2 1, .setNode 2 1 1, .getBlockNode 2 1,
    .getNoBlockNode 1 7, .setNode 2 2 0]

theorem queues_conserved_passed :
    ∃ contents, QueuesHold 3 (runFrom QueueSystem.call threeQueues passedNodes).1
      (runFrom QueueSystem.call threeQueues passedNodes).2 contents ∧
      delivered 1 (runFrom QueueSystem.call threeQueues passedNodes).1 = [2] ∧
      (runFrom QueueSystem.call threeQueues passedNodes).1.length = 7 := by
  have run : QueueRun 3 (runFrom QueueSystem.call threeQueues passedNodes).1
      (runFrom QueueSystem.call threeQueues passedNodes).2 :=
    StepRun.runFrom (fun s c e t h => ⟨c, h⟩) ⟨rfl, rfl⟩ passedNodes
  obtain ⟨contents, h, -⟩ := queues_conserved run
  exact ⟨contents, h, by decide +kernel, by decide +kernel⟩

end MasterAI
