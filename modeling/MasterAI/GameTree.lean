import MasterAI.DecimalText
import Mathlib.Algebra.BigOperators.Group.Finset.Basic
import Mathlib.Algebra.BigOperators.Ring.Finset

namespace MasterAI

/-- The names in a `std::set`, in its order. -/
structure ActionSet where
  names : List (List Char)
  sorted : names.Pairwise (· < ·)

structure GameNode where
  infoset : List Char
  parent : Option Nat
  children : List Nat
  deriving DecidableEq, Repr

/-- A tree with the nodes that were made for it; a pointer is the place of its node among them. -/
structure GameTree where
  mDepth : Nat
  mActions : ActionSet
  mNodes : List (List Char × Nat)
  made : List GameNode

def historyToStr (his : List (List Char)) : List Char := his.flatMap fun action => '|' :: action

namespace GameTree

def new (depth : Nat) (actions : ActionSet) : GameTree := ⟨depth, actions, [], []⟩

def getGameTreeNode (tree : GameTree) (infoset : List Char) : Option Nat := tree.mNodes.lookup infoset

def numOfTreeNode (tree : GameTree) : Nat := tree.mNodes.length

def makeNode (tree : GameTree) (node : GameNode) : GameTree := { tree with made := tree.made ++ [node] }

/-- `emplace` keeps the node that a key has. -/
def emplace (tree : GameTree) (infoset : List Char) (node : Nat) : GameTree :=
  if (tree.getGameTreeNode infoset).isSome then tree else { tree with mNodes := tree.mNodes ++ [(infoset, node)] }

def pushChild (tree : GameTree) (node child : Nat) : GameTree :=
  { tree with made := tree.made.modify node fun n => { n with children := n.children ++ [child] } }

/-- A step of a history: the player who acts, and the action. -/
def historyStep (depth : Nat) (action : List Char) : List Char := printNat (depth % 2) ++ action

/-- The loop of `RecursiveCreateTree` over the actions. -/
def createChildren (create : List (List Char) → GameTree → Option Nat × GameTree) (depth node : Nat)
    (his : List (List Char)) : List (List Char) → GameTree → GameTree
  | [], tree => tree
  | action :: actions, tree =>
    if action = ['F'] then createChildren create depth node his actions tree
    else
      let result := create (his ++ [historyStep depth action]) tree
      createChildren create depth node his actions
        (result.1.elim result.2 fun child => result.2.pushChild node child)

/-- `RecursiveCreateTree` at a depth, with the levels that are left down to `mDepth`. -/
def recursiveCreateTree : Nat → Nat → Option Nat → List (List Char) → GameTree → Option Nat × GameTree
  | 0, _, _, _, tree => (none, tree)
  | left + 1, depth, parent, his, tree =>
    let node := tree.made.length
    let tree := (tree.makeNode ⟨historyToStr his, parent, []⟩).emplace (historyToStr his) node
    (some node, createChildren (fun his2 tree => recursiveCreateTree left (depth + 1) (some node) his2 tree) depth node
      his tree.mActions.names tree)

def buildTree (tree : GameTree) : GameTree := (recursiveCreateTree tree.mDepth 0 none [] tree).2

end GameTree

theorem ActionSet.nodup (actions : ActionSet) : actions.names.Nodup := by
  refine actions.sorted.imp fun {a b} hlt heq => ?_
  rw [heq] at hlt
  exact List.lt_irrefl b hlt

/-- The actions that the tree goes on with. -/
def ActionSet.moves (actions : ActionSet) : List (List Char) := actions.names.filter (· ≠ ['F'])

/-- The steps of a history from a depth on. -/
def IsHistory (moves : List (List Char)) : Nat → List (List Char) → Prop
  | _, [] => True
  | depth, s :: his => (∃ action ∈ moves, s = GameTree.historyStep depth action) ∧ IsHistory moves (depth + 1) his

section

variable {his e e' : List (List Char)} {moves : List (List Char)} {depth : Nat} {s s' action action' : List Char}

theorem historyToStr_cons (s : List Char) (his : List (List Char)) :
    historyToStr (s :: his) = '|' :: (s ++ historyToStr his) := rfl

theorem historyToStr_append (his e : List (List Char)) : historyToStr (his ++ e) = historyToStr his ++ historyToStr e :=
  List.flatMap_append

/-- A step ends where the next separator stands. -/
theorem takeWhile_historyToStr (hs : '|' ∉ s) (his : List (List Char)) :
    (s ++ historyToStr his).takeWhile (· ≠ '|') = s := by
  have hall : ∀ c ∈ s, decide (c ≠ '|') = true := fun c hc => decide_eq_true fun h => hs (h ▸ hc)
  rw [List.takeWhile_append_of_pos hall]
  cases his with
  | nil => exact List.append_nil s
  | cons s' his =>
    rw [historyToStr_cons, List.takeWhile_cons_of_neg (by decide), List.append_nil]

theorem historyToStr_inj (hs : '|' ∉ s) (hs' : '|' ∉ s') (h : historyToStr (s :: e) = historyToStr (s' :: e')) :
    s = s' ∧ historyToStr e = historyToStr e' := by
  rw [historyToStr_cons, historyToStr_cons, List.cons.injEq] at h
  have hsame : s = s' := by
    rw [← takeWhile_historyToStr hs e, h.2, takeWhile_historyToStr hs' e']
  subst hsame
  exact ⟨rfl, List.append_cancel_left h.2⟩

theorem bar_notMem_historyStep (hbar : '|' ∉ action) : '|' ∉ GameTree.historyStep depth action := by
  rw [GameTree.historyStep, List.mem_append]
  rintro (hdigit | haction)
  · exact absurd (printNat_digits _ hdigit) (by decide)
  · exact hbar haction

theorem historyStep_injective (h : GameTree.historyStep depth action = GameTree.historyStep depth action') :
    action = action' := List.append_cancel_left h

theorem isHistory_append : IsHistory moves depth (e ++ e') ↔ IsHistory moves depth e ∧ IsHistory moves (depth + e.length) e' := by
  induction e generalizing depth with
  | nil => simp [IsHistory]
  | cons s e ih =>
    rw [List.cons_append, IsHistory, IsHistory, ih, List.length_cons, Nat.add_right_comm, Nat.add_assoc, and_assoc]

/-- No two histories have the same key. -/
theorem historyToStr_injective (hbar : ∀ a ∈ moves, '|' ∉ a) (he : IsHistory moves depth e) (he' : IsHistory moves depth e')
    (h : historyToStr e = historyToStr e') : e = e' := by
  induction e generalizing depth e' with
  | nil =>
    cases e' with
    | nil => rfl
    | cons s' e' => cases h
  | cons s e ih =>
    cases e' with
    | nil => cases h
    | cons s' e' =>
      obtain ⟨⟨a, ha, rfl⟩, he⟩ := he
      obtain ⟨⟨a', ha', rfl⟩, he'⟩ := he'
      obtain ⟨hstep, hrest⟩ := historyToStr_inj (bar_notMem_historyStep (hbar a ha))
        (bar_notMem_historyStep (hbar a' ha')) h
      rw [hstep, ih he he' hrest]

end

namespace GameTree

/-- The key of a history of some more steps. -/
def KeyBelow (moves : List (List Char)) (left depth : Nat) (his : List (List Char)) (key : List Char) : Prop :=
  ∃ e, IsHistory moves depth e ∧ e.length < left ∧ key = historyToStr (his ++ e)

/-- A tree that grew by some nodes, found under some new keys. -/
structure Grew (tree next : GameTree) (count : Nat) (newKey : List Char → Prop) : Prop where
  actions : next.mActions = tree.mActions
  found : ∀ key, ¬newKey key → next.getGameTreeNode key = tree.getGameTreeNode key
  nodes : next.mNodes.length = tree.mNodes.length + count
  made : next.made.length = tree.made.length + count

/-- A node at an address with its levels of children, which were made after it. -/
def Grown (tree : GameTree) (moves : List (List Char)) : Nat → Nat → Option Nat → List (List Char) → Nat → Prop
  | 0, _, _, _, _ => False
  | left + 1, depth, parent, his, addr =>
    ∃ children, tree.made[addr]? = some ⟨historyToStr his, parent, children⟩ ∧
      tree.getGameTreeNode (historyToStr his) = some addr ∧
      List.Forall₂ (fun action child => addr < child ∧
        Grown tree moves left (depth + 1) (some addr) (his ++ [historyStep depth action]) child)
        (if left = 0 then [] else moves) children

variable {tree next last : GameTree} {moves names : List (List Char)} {left depth addr node m n : Nat} {parent : Option Nat}
  {his e : List (List Char)} {key action action' : List Char} {newKey moreKeys : List Char → Prop}

theorem Grew.trans (h : Grew tree next m newKey) (h' : Grew next last n moreKeys) :
    Grew tree last (m + n) fun key => newKey key ∨ moreKeys key where
  actions := h'.actions.trans h.actions
  found key hkey := by rw [h'.found key fun hk => hkey (Or.inr hk), h.found key fun hk => hkey (Or.inl hk)]
  nodes := by rw [h'.nodes, h.nodes, Nat.add_assoc]
  made := by rw [h'.made, h.made, Nat.add_assoc]

theorem Grew.weaken (h : Grew tree next m newKey) (hkeys : ∀ key, newKey key → moreKeys key) :
    Grew tree next m moreKeys :=
  { h with found := fun key hkey => h.found key fun hk => hkey (hkeys key hk) }

/-- Whatever keeps the nodes from an address on keeps what has grown there. -/
theorem Grown.mono (hmade : ∀ i node, addr ≤ i → tree.made[i]? = some node → next.made[i]? = some node)
    (hfound : ∀ key child, tree.getGameTreeNode key = some child → next.getGameTreeNode key = some child)
    (h : Grown tree moves left depth parent his addr) : Grown next moves left depth parent his addr := by
  induction left generalizing depth parent his addr with
  | zero => exact h
  | succ left ih =>
    obtain ⟨children, hnode, hkey, hchildren⟩ := h
    refine ⟨children, hmade addr _ le_rfl hnode, hfound _ _ hkey, hchildren.imp fun action child hchild => ?_⟩
    exact ⟨hchild.1, ih (fun i node hi => hmade i node (hchild.1.le.trans hi)) hchild.2⟩

theorem getGameTreeNode_emplace (hnew : tree.getGameTreeNode key = none) (other : List Char) :
    (tree.emplace key node).getGameTreeNode other = if other = key then some node else tree.getGameTreeNode other := by
  unfold emplace
  rw [hnew, if_neg (by simp)]
  unfold getGameTreeNode at hnew ⊢
  rw [List.lookup_append]
  by_cases hkey : other = key
  · rw [hkey, hnew, if_pos rfl]
    simp
  · rw [if_neg hkey, List.lookup_cons, beq_false_of_ne hkey]
    exact Option.or_none

/-- A new node is found under its key. -/
theorem makeNode_spec (hnew : tree.getGameTreeNode key = none) (g : GameNode) :
    Grew tree ((tree.makeNode g).emplace key tree.made.length) 1 (· = key) ∧
      ((tree.makeNode g).emplace key tree.made.length).getGameTreeNode key = some tree.made.length ∧
      ((tree.makeNode g).emplace key tree.made.length).made = tree.made ++ [g] := by
  have hfound := @getGameTreeNode_emplace (tree.makeNode g) tree.made.length key hnew
  have hemplace : (tree.makeNode g).emplace key tree.made.length =
      { tree.makeNode g with mNodes := tree.mNodes ++ [(key, tree.made.length)] } := by
    unfold emplace
    rw [if_neg]
    · rfl
    · rw [show (tree.makeNode g).getGameTreeNode key = none from hnew]
      simp
  refine ⟨⟨?_, fun other hother => ?_, ?_, ?_⟩, ?_, ?_⟩
  · rw [hemplace]
    rfl
  · rw [hfound, if_neg hother]
    rfl
  · rw [hemplace, List.length_append]
    rfl
  · rw [hemplace]
    exact List.length_append
  · rw [hfound, if_pos rfl]
  · rw [hemplace]
    rfl

theorem keyBelow_ne (haction : '|' ∉ action) (haction' : '|' ∉ action') (hne : action ≠ action')
    (h : KeyBelow moves left (depth + 1) (his ++ [historyStep depth action]) key) :
    ¬KeyBelow moves left (depth + 1) (his ++ [historyStep depth action']) key := by
  rintro ⟨e', -, -, heq⟩
  obtain ⟨e, -, -, rfl⟩ := h
  rw [List.append_assoc, List.append_assoc, historyToStr_append his, historyToStr_append his] at heq
  exact hne (historyStep_injective (historyToStr_inj (bar_notMem_historyStep haction) (bar_notMem_historyStep haction')
    (List.append_cancel_left heq)).1)

/-- The key of a longer history is another one, and it is that of a history with more steps from an earlier depth. -/
theorem keyBelow_step (haction : action ∈ moves)
    (h : KeyBelow moves left (depth + 1) (his ++ [historyStep depth action]) key) :
    key ≠ historyToStr his ∧ KeyBelow moves (left + 1) depth his key := by
  obtain ⟨e, hfollows, hlength, rfl⟩ := h
  constructor
  · rw [List.append_assoc, historyToStr_append]
    intro heq
    exact absurd (List.append_right_eq_self.mp heq) (List.cons_ne_nil _ _)
  · exact ⟨historyStep depth action :: e, ⟨⟨action, haction, rfl⟩, hfollows⟩, Nat.succ_lt_succ hlength,
      by rw [List.append_assoc]; rfl⟩

/-- What `RecursiveCreateTree` does with some levels left: it makes one node for each history of these levels, and
leaves the nodes made before alone. -/
def CreateSpec (actions : ActionSet) (left : Nat) : Prop :=
  ∀ depth parent his tree, tree.mActions = actions →
    (∀ key, KeyBelow actions.moves left depth his key → tree.getGameTreeNode key = none) →
    ∃ next, recursiveCreateTree left depth parent his tree = (if left = 0 then none else some tree.made.length, next) ∧
      Grew tree next (∑ i ∈ Finset.range left, actions.moves.length ^ i) (KeyBelow actions.moves left depth his) ∧
      (∀ i < tree.made.length, next.made[i]? = tree.made[i]?) ∧
      (0 < left → Grown next actions.moves left depth parent his tree.made.length)

theorem pushChild_self {rec : GameNode} (hnode : tree.made[node]? = some rec) (child : Nat) :
    (tree.pushChild node child).made[node]? = some { rec with children := rec.children ++ [child] } := by
  rw [pushChild, List.getElem?_modify, hnode]
  simp

theorem pushChild_ne (child : Nat) {i : Nat} (hi : i ≠ node) :
    (tree.pushChild node child).made[i]? = tree.made[i]? := by
  rw [pushChild, List.getElem?_modify]
  simp [Ne.symm hi]

theorem Grew.pushChild (h : Grew tree next m newKey) (child : Nat) : Grew tree (next.pushChild node child) m newKey :=
  ⟨h.actions, h.found, h.nodes, by rw [GameTree.pushChild, List.length_modify, h.made]⟩

/-- What the loop over some actions does: a child of the node has grown for each of them, and the nodes made before stay
as they are but for the node itself. -/
structure GrewChildren (moves : List (List Char)) (left depth node : Nat) (his names : List (List Char)) (rec : GameNode)
    (tree next : GameTree) (children : List Nat) : Prop where
  grew : Grew tree next (names.length * ∑ i ∈ Finset.range left, moves.length ^ i)
    fun key => ∃ a ∈ names, KeyBelow moves left (depth + 1) (his ++ [historyStep depth a]) key
  kept : ∀ i < tree.made.length, i ≠ node → next.made[i]? = tree.made[i]?
  self : next.made[node]? = some { rec with children := rec.children ++ children }
  grown : List.Forall₂ (fun action child => node < child ∧ tree.made.length ≤ child ∧
    Grown next moves left (depth + 1) (some node) (his ++ [historyStep depth action]) child)
    (if left = 0 then [] else names) children

theorem GrewChildren.nil {rec : GameNode} (hnode : tree.made[node]? = some rec) :
    GrewChildren moves left depth node his [] rec tree tree [] where
  grew := ⟨rfl, fun _ _ => rfl, by simp, by simp⟩
  kept _ _ _ := rfl
  self := by simpa using hnode
  grown := by simp

/-- The loop over more actions, none of whose keys was found before. -/
theorem GrewChildren.append {rec : GameNode} {first children : List Nat} {names' : List (List Char)}
    (h : GrewChildren moves left depth node his names rec tree next first)
    (h' : GrewChildren moves left depth node his names' { rec with children := rec.children ++ first } next last children)
    (hfresh : ∀ a ∈ names', ∀ key, KeyBelow moves left (depth + 1) (his ++ [historyStep depth a]) key →
      next.getGameTreeNode key = none) :
    GrewChildren moves left depth node his (names ++ names') rec tree last (first ++ children) where
  grew := by
    rw [List.length_append, Nat.add_mul]
    refine (h.grew.trans h'.grew).weaken ?_
    rintro key (⟨a, ha, hkey⟩ | ⟨a, ha, hkey⟩)
    · exact ⟨a, List.mem_append_left _ ha, hkey⟩
    · exact ⟨a, List.mem_append_right _ ha, hkey⟩
  kept i hi hne := by
    have hsize := h.grew.made
    rw [h'.kept i (by omega) hne, h.kept i hi hne]
  self := by
    rw [h'.self]
    simp
  grown := by
    have hsize := h.grew.made
    have hlater : ∀ key child, next.getGameTreeNode key = some child → last.getGameTreeNode key = some child := by
      intro key child hkey
      rw [h'.grew.found key, hkey]
      rintro ⟨a, ha, hbelow⟩
      rw [hfresh a ha key hbelow] at hkey
      cases hkey
    have hfirst := h.grown.imp fun action child hchild => by
      obtain ⟨hnode, hge, hgrown⟩ := hchild
      have hkept : ∀ i g, child ≤ i → next.made[i]? = some g → last.made[i]? = some g := by
        intro i g hi hg
        rw [h'.kept i (List.getElem?_eq_some_iff.mp hg).1 (by omega), hg]
      exact And.intro hnode (And.intro hge (hgrown.mono hkept hlater))
    have hrest := h'.grown.imp fun action child hchild => by
      obtain ⟨hnode, hge, hgrown⟩ := hchild
      exact And.intro hnode (And.intro ((hsize ▸ Nat.le_add_right _ _ : tree.made.length ≤ next.made.length).trans hge)
        hgrown)
    by_cases hleft : left = 0
    · rw [if_pos hleft] at hfirst hrest ⊢
      exact List.rel_append hfirst hrest
    · rw [if_neg hleft] at hfirst hrest ⊢
      exact List.rel_append hfirst hrest

/-- What one round of the loop over the actions does. -/
theorem createChild_spec {actions : ActionSet} (hcreate : CreateSpec actions left) (depth node : Nat)
    (his : List (List Char)) {rec : GameNode} (hactions : tree.mActions = actions) (hnode : tree.made[node]? = some rec)
    (hfresh : ∀ key, KeyBelow actions.moves left (depth + 1) (his ++ [historyStep depth action]) key →
      tree.getGameTreeNode key = none) :
    ∃ next children,
      (recursiveCreateTree left (depth + 1) (some node) (his ++ [historyStep depth action]) tree).1.elim
        (recursiveCreateTree left (depth + 1) (some node) (his ++ [historyStep depth action]) tree).2
        (fun child => (recursiveCreateTree left (depth + 1) (some node) (his ++ [historyStep depth action])
          tree).2.pushChild node child) = next ∧
      GrewChildren actions.moves left depth node his [action] rec tree next children := by
  obtain ⟨next, heq, hgrew, hkept, hgrown⟩ := hcreate (depth + 1) (some node) _ tree hactions hfresh
  have hlt : node < tree.made.length := (List.getElem?_eq_some_iff.mp hnode).1
  have hself : next.made[node]? = some rec := by rw [hkept node hlt, hnode]
  have hgrewOne : Grew tree next ([action].length * ∑ i ∈ Finset.range left, actions.moves.length ^ i)
      fun key => ∃ a ∈ [action], KeyBelow actions.moves left (depth + 1) (his ++ [historyStep depth a]) key := by
    rw [List.length_singleton, Nat.one_mul]
    exact hgrew.weaken fun key hkey => ⟨action, List.mem_singleton_self action, hkey⟩
  rw [heq]
  by_cases hleft : left = 0
  · simp only [if_pos hleft]
    refine ⟨next, [], rfl, hgrewOne, fun i hi _ => hkept i hi, by simpa using hself, ?_⟩
    rw [if_pos hleft]
    exact List.Forall₂.nil
  · simp only [if_neg hleft]
    refine ⟨next.pushChild node tree.made.length, [tree.made.length], rfl, hgrewOne.pushChild _, ?_, ?_, ?_⟩
    · intro i hi hne
      rw [pushChild_ne _ hne, hkept i hi]
    · exact pushChild_self hself _
    · have hmade : ∀ i g, tree.made.length ≤ i → next.made[i]? = some g →
          (next.pushChild node tree.made.length).made[i]? = some g := fun i g hi hg => by
        rw [pushChild_ne _ (by omega), hg]
      rw [if_neg hleft]
      exact List.Forall₂.cons ⟨hlt, le_rfl, Grown.mono hmade (fun _ _ h => h) (hgrown (Nat.pos_of_ne_zero hleft))⟩
        List.Forall₂.nil

/-- One child after the other is made and pushed. -/
theorem createChildren_spec {actions : ActionSet} (hcreate : CreateSpec actions left) (depth node : Nat)
    (his : List (List Char)) {rec : GameNode} (hnames : names.Nodup) (hbar : ∀ a ∈ names, '|' ∉ a)
    (hactions : tree.mActions = actions) (hnode : tree.made[node]? = some rec)
    (hfresh : ∀ a ∈ names.filter (· ≠ ['F']), ∀ key,
      KeyBelow actions.moves left (depth + 1) (his ++ [historyStep depth a]) key → tree.getGameTreeNode key = none) :
    ∃ children, GrewChildren actions.moves left depth node his (names.filter (· ≠ ['F'])) rec tree
      (createChildren (fun his2 tree => recursiveCreateTree left (depth + 1) (some node) his2 tree) depth node his names
        tree) children := by
  induction names generalizing tree rec with
  | nil => exact ⟨[], .nil hnode⟩
  | cons a names ih =>
    obtain ⟨hfirst, hnames⟩ := List.nodup_cons.mp hnames
    obtain ⟨hbarFirst, hbar⟩ := List.forall_mem_cons.mp hbar
    rw [createChildren]
    by_cases hF : a = ['F']
    · rw [if_pos hF]
      rw [List.filter_cons_of_neg (by simp [hF])] at hfresh ⊢
      exact ih hnames hbar hactions hnode hfresh
    · rw [if_neg hF]
      rw [List.filter_cons_of_pos (by simp [hF])] at hfresh ⊢
      obtain ⟨hfreshFirst, hfresh⟩ := List.forall_mem_cons.mp hfresh
      obtain ⟨mid, first, hmid, hone⟩ := createChild_spec hcreate depth node his hactions hnode hfreshFirst
      have hfreshMid : ∀ a' ∈ names.filter (· ≠ ['F']), ∀ key,
          KeyBelow actions.moves left (depth + 1) (his ++ [historyStep depth a']) key →
            mid.getGameTreeNode key = none := by
        intro a' ha' key hkey
        have hmem := List.mem_of_mem_filter ha'
        rw [hone.grew.found key, hfresh a' ha' key hkey]
        rintro ⟨a'', ha'', hkey'⟩
        rw [List.mem_singleton.mp ha''] at hkey'
        exact keyBelow_ne (hbar a' hmem) hbarFirst (fun heq => hfirst (heq ▸ hmem)) hkey hkey'
      obtain ⟨children, hrest⟩ := ih hnames hbar (hone.grew.actions.trans hactions) hone.self hfreshMid
      dsimp only
      rw [hmid]
      exact ⟨first ++ children, hone.append hrest hfreshMid⟩

theorem createSpec {actions : ActionSet} (hbar : ∀ a ∈ actions.names, '|' ∉ a) (left : Nat) : CreateSpec actions left := by
  induction left with
  | zero =>
    intro depth parent his tree _ _
    exact ⟨tree, rfl, ⟨rfl, fun _ _ => rfl, by simp, by simp⟩, fun _ _ => rfl, fun h => absurd h (lt_irrefl 0)⟩
  | succ left ih =>
    intro depth parent his tree hactions hfresh
    have hself : tree.getGameTreeNode (historyToStr his) = none :=
      hfresh _ ⟨[], trivial, Nat.succ_pos left, by rw [List.append_nil]⟩
    obtain ⟨hgrewSelf, hfoundSelf, hmadeSelf⟩ := makeNode_spec hself ⟨historyToStr his, parent, []⟩
    generalize hmid : (tree.makeNode ⟨historyToStr his, parent, []⟩).emplace (historyToStr his) tree.made.length = mid at *
    have hmidActions : mid.mActions = actions := hgrewSelf.actions.trans hactions
    have hnode : mid.made[tree.made.length]? = some ⟨historyToStr his, parent, []⟩ := by
      rw [hmadeSelf, List.getElem?_concat_length]
    obtain ⟨children, hspec⟩ := createChildren_spec ih depth tree.made.length his actions.nodup hbar hmidActions hnode
      fun a ha key hkey => by
        obtain ⟨hother, hbelow⟩ := keyBelow_step ha hkey
        rw [hgrewSelf.found key hother, hfresh key hbelow]
    have hlevels : ∑ i ∈ Finset.range (left + 1), actions.moves.length ^ i =
        1 + actions.moves.length * ∑ i ∈ Finset.range left, actions.moves.length ^ i := by
      rw [Finset.sum_range_succ', Finset.mul_sum, Nat.add_comm, pow_zero]
      simp only [pow_succ']
    generalize hnext : createChildren _ depth tree.made.length his actions.names mid = next at hspec
    refine ⟨next, ?_, ?_, ?_, fun _ => ?_⟩
    · rw [recursiveCreateTree, hmid, hmidActions, hnext]
      rfl
    · rw [hlevels]
      refine (hgrewSelf.trans hspec.grew).weaken ?_
      rintro key (rfl | ⟨a, ha, hkey⟩)
      · exact ⟨[], trivial, Nat.succ_pos left, by rw [List.append_nil]⟩
      · exact (keyBelow_step ha hkey).2
    · intro i hi
      have hsize : i < mid.made.length := by
        rw [hgrewSelf.made]
        omega
      rw [hspec.kept i hsize hi.ne, hmadeSelf, List.getElem?_append_left hi]
    · refine ⟨children, hspec.self, ?_, hspec.grown.imp fun action child hchild => ⟨hchild.1, hchild.2.2⟩⟩
      rw [hspec.grew.found, hfoundSelf]
      rintro ⟨a, ha, hkey⟩
      exact (keyBelow_step ha hkey).1 rfl

theorem exists_of_forall₂ {α β : Type*} {R : α → β → Prop} {xs : List α} {ys : List β} (h : List.Forall₂ R xs ys) {x : α}
    (hx : x ∈ xs) : ∃ y ∈ ys, R x y := by
  induction h with
  | nil => cases hx
  | cons hxy _ ih =>
    rcases List.mem_cons.mp hx with rfl | hx
    · exact ⟨_, List.mem_cons_self .., hxy⟩
    · obtain ⟨y, hy, hR⟩ := ih hx
      exact ⟨y, List.mem_cons_of_mem _ hy, hR⟩

/-- In a tree that has grown from its root, a history leads to its node. -/
theorem Grown.reaches (h : Grown tree moves left 0 none [] addr) {his : List (List Char)} (hhis : IsHistory moves 0 his)
    (hlength : his.length < left) :
    ∃ place, Grown tree moves (left - his.length) his.length
      (if his = [] then none else tree.getGameTreeNode (historyToStr his.dropLast)) his place := by
  induction his using List.reverseRecOn with
  | nil => exact ⟨addr, h⟩
  | append_singleton his s ih =>
    rw [List.length_append, List.length_singleton] at hlength
    obtain ⟨hfront, ⟨⟨action, haction, rfl⟩, -⟩⟩ := isHistory_append.mp hhis
    obtain ⟨place, hplace⟩ := ih hfront (by omega)
    obtain ⟨rest, hrest⟩ : ∃ rest, left - his.length = rest + 1 := ⟨left - his.length - 1, by omega⟩
    rw [hrest] at hplace
    obtain ⟨children, -, hkey, hchildren⟩ := hplace
    rw [if_neg (by omega)] at hchildren
    obtain ⟨child, -, hchild⟩ := exists_of_forall₂ hchildren haction
    refine ⟨child, ?_⟩
    rw [if_neg (by simp), List.dropLast_concat, hkey, List.length_append, List.length_singleton,
      show left - (his.length + 1) = rest by omega]
    rw [Nat.zero_add]
    exact hchild.2

/-- The tree has one node for each history of fewer steps than its depth, found under the key of the history and linked
with the nodes of the history without its last step and with one step more. -/
structure HoldsHistories (tree : GameTree) (depth : Nat) (moves : List (List Char)) : Prop where
  count : tree.numOfTreeNode = ∑ i ∈ Finset.range depth, moves.length ^ i
  made : tree.made.length = tree.numOfTreeNode
  found : ∀ his, IsHistory moves 0 his → his.length < depth → ∃ addr node,
    tree.getGameTreeNode (historyToStr his) = some addr ∧ tree.made[addr]? = some node ∧ node.infoset = historyToStr his ∧
      node.parent = (if his = [] then none else tree.getGameTreeNode (historyToStr his.dropLast)) ∧
      node.children.map some =
        if his.length + 1 < depth then
          moves.map fun action => tree.getGameTreeNode (historyToStr (his ++ [historyStep his.length action]))
        else []
  distinct : ∀ his his', IsHistory moves 0 his → IsHistory moves 0 his' → his.length < depth → his'.length < depth →
    tree.getGameTreeNode (historyToStr his) = tree.getGameTreeNode (historyToStr his') → his = his'
  absent : ∀ key, (∀ his, IsHistory moves 0 his → his.length < depth → key ≠ historyToStr his) →
    tree.getGameTreeNode key = none

/-- The children of a node are the nodes of the next steps. -/
theorem Grown.children_found (h : Grown tree moves left depth parent his addr) :
    ∃ children, tree.made[addr]? = some ⟨historyToStr his, parent, children⟩ ∧
      tree.getGameTreeNode (historyToStr his) = some addr ∧
      children.map some = if 1 < left then
        moves.map fun action => tree.getGameTreeNode (historyToStr (his ++ [historyStep depth action])) else [] := by
  cases left with
  | zero => exact h.elim
  | succ left =>
    obtain ⟨children, hnode, hkey, hchildren⟩ := h
    refine ⟨children, hnode, hkey, ?_⟩
    cases left with
    | zero =>
      rw [if_pos rfl, List.forall₂_nil_left_iff] at hchildren
      rw [hchildren, if_neg (lt_irrefl 1)]
      rfl
    | succ left =>
      rw [if_neg (Nat.succ_ne_zero left)] at hchildren
      rw [if_pos (by omega), ← List.forall₂_eq_eq_eq, List.forall₂_map_left_iff, List.forall₂_map_right_iff]
      refine hchildren.flip.imp fun child action hchild => ?_
      obtain ⟨_, _, hfound, _⟩ := hchild.2
      exact hfound.symm

/-- `BuildTree` makes the node of each history. -/
theorem buildTree_holds (depth : Nat) (actions : ActionSet) (hbar : ∀ a ∈ actions.names, '|' ∉ a) :
    HoldsHistories (new depth actions).buildTree depth actions.moves := by
  obtain ⟨next, hnext, hgrew, -, hgrown⟩ := createSpec hbar depth 0 none [] (new depth actions) rfl fun _ _ => rfl
  have htree : (new depth actions).buildTree = next := congrArg Prod.snd hnext
  rw [htree]
  have hmoves : ∀ a ∈ actions.moves, '|' ∉ a := fun a ha => hbar a (List.mem_of_mem_filter ha)
  have hfound : ∀ his, IsHistory actions.moves 0 his → his.length < depth → ∃ addr children,
      next.made[addr]? = some ⟨historyToStr his,
        if his = [] then none else next.getGameTreeNode (historyToStr his.dropLast), children⟩ ∧
      next.getGameTreeNode (historyToStr his) = some addr ∧
      children.map some = if 1 < depth - his.length then
        actions.moves.map fun action => next.getGameTreeNode (historyToStr (his ++ [historyStep his.length action]))
        else [] := by
    intro his hhis hlength
    obtain ⟨addr, haddr⟩ := (hgrown (by omega)).reaches hhis hlength
    exact ⟨addr, haddr.children_found⟩
  refine ⟨?_, ?_, ?_, ?_, ?_⟩
  · rw [numOfTreeNode, hgrew.nodes]
    exact Nat.zero_add _
  · rw [numOfTreeNode, hgrew.nodes, hgrew.made]
    rfl
  · intro his hhis hlength
    obtain ⟨addr, children, hnode, hkey, hchildren⟩ := hfound his hhis hlength
    refine ⟨addr, _, hkey, hnode, rfl, rfl, ?_⟩
    rw [hchildren]
    exact if_congr (by omega) rfl rfl
  · intro his his' hhis hhis' hlength hlength' hsame
    obtain ⟨addr, _, hnode, hkey, -⟩ := hfound his hhis hlength
    obtain ⟨addr', _, hnode', hkey', -⟩ := hfound his' hhis' hlength'
    rw [hkey, hkey', Option.some.injEq] at hsame
    rw [hsame, hnode', Option.some.injEq, GameNode.mk.injEq] at hnode
    exact (historyToStr_injective hmoves hhis' hhis hnode.1).symm
  · intro key hkey
    rw [hgrew.found key]
    · rfl
    · rintro ⟨his, hhis, hlength, rfl⟩
      exact hkey his hhis hlength rfl

end GameTree

/-- Two moves beside the fold. -/
def checkBetActions : ActionSet := ⟨[['B'], ['C'], ['F']], by decide⟩

/-- Three levels of two moves. -/
theorem buildTree_holds_checkBet :
    (GameTree.new 3 checkBetActions).buildTree.numOfTreeNode = 7 ∧
      (GameTree.new 3 checkBetActions).buildTree.getGameTreeNode ['|', '0', 'B', '|', '1', 'C'] = some 3 := by
  have hholds := GameTree.buildTree_holds 3 checkBetActions (by decide)
  exact ⟨hholds.count, by decide⟩

end MasterAI
