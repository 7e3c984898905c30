import MasterAI.LevelIndex
import MasterAI.TypicalCards

namespace MasterAI

/-- The tables that `Build` fills, with the number of boards of each street so far. -/
structure BoardTables where
  bds : Nat → Nat
  boards : Nat → Nat → List Nat
  variants : Nat → Nat → Nat
  suitGroups : Nat → Nat → SuitGroups
  succBegin : Nat → Nat → Nat → Nat
  succEnd : Nat → Nat → Nat → Nat

namespace BoardTables

/-- The next board of a street. -/
def assign (T : BoardTables) (st : Nat) (board : List Nat) (e : TypicalEntry) : BoardTables :=
  { T with
    bds := Function.update T.bds st (T.bds st + 1)
    boards := Function.update T.boards st (Function.update (T.boards st) (T.bds st) board)
    variants := Function.update T.variants st (Function.update (T.variants st) (T.bds st) e.numVariants)
    suitGroups := Function.update T.suitGroups st (Function.update (T.suitGroups st) (T.bds st) e.suitGroups) }

/-- The ranges of a board on the streets behind it, from the counters before and after its own boards. -/
def close (T : BoardTables) (maxStreet st bd : Nat) (starts : Nat → Nat) : BoardTables :=
  { T with
    succBegin := fun s nst b =>
      if s = st ∧ b = bd ∧ st < nst ∧ nst ≤ maxStreet then starts nst else T.succBegin s nst b
    succEnd := fun s nst b =>
      if s = st ∧ b = bd ∧ st < nst ∧ nst ≤ maxStreet then T.bds nst else T.succEnd s nst b }

end BoardTables

namespace SGame

variable (g : SGame)

/-- `Count`, with the number of streets that are left. -/
def count : Nat → Nat → List Nat → SuitGroups → (Nat → Nat) → Option (Nat → Nat)
  | 0, _, _, _, num => some num
  | left + 1, st, board, sg, num =>
    (g.typicalCards (g.numCardsForStreet st) board sg).bind fun entries =>
      entries.foldlM
        (fun num e =>
          if e.numVariants = 0 then some num else count left (st + 1) (board ++ e.cards) e.suitGroups num)
        (Function.update num st (num st + entries.countP fun e => e.numMappings ≠ 0))

/-- `Build`, with the number of streets that are left. -/
def build : Nat → Nat → List Nat → SuitGroups → BoardTables → Option BoardTables
  | 0, _, _, _, T => some T
  | left + 1, st, board, sg, T =>
    (g.typicalCards (g.numCardsForStreet st) board sg).bind fun entries =>
      entries.foldlM
        (fun T e =>
          if e.numVariants = 0 then some T
          else
            let T₁ := T.assign st (board ++ e.cards) e
            (build left (st + 1) (board ++ e.cards) e.suitGroups T₁).map fun T₂ =>
              T₂.close g.maxStreet st (T.bds st) T₁.bds)
        T

end SGame

/-- The board tree as `Create` leaves it. -/
structure PCardTree where
  numBoards : Nat → Nat
  boards : Nat → Nat → List Nat
  variants : Nat → Nat → Nat
  suitGroups : Nat → Nat → SuitGroups
  succBegin : Nat → Nat → Nat → Nat
  succEnd : Nat → Nat → Nat → Nat

def kMaxInt : Nat := 2147483647

def noGroups : SuitGroups := [0, 0, 0, 0]

theorem groupOf_noGroups (s : Nat) : groupOf noGroups s = 0 := by
  rcases s with _ | _ | _ | _ | s <;> rfl

theorem noGroups_valid (n : Nat) : ValidGroups n noGroups := by
  refine ⟨rfl, fun s _ => ?_, fun s _ _ => groupOf_noGroups s⟩
  rw [groupOf_noGroups]
  exact ⟨Nat.zero_le s, rfl⟩

namespace SGame

variable (g : SGame)

/-- The tables before `Build`. -/
def emptyTables : BoardTables where
  bds := fun _ => 0
  boards := fun _ _ => []
  variants := fun st bd => if st = 0 ∧ bd = 0 then 1 else 0
  suitGroups := fun _ _ => noGroups
  succBegin := fun _ _ _ => 0
  succEnd := fun _ _ _ => 0

def create : Option PCardTree :=
  (g.count g.maxStreet 1 [] noGroups fun st => if st = 0 then 1 else 0).bind fun num =>
    (g.build g.maxStreet 1 [] noGroups emptyTables).bind fun T =>
      if (List.range g.maxStreet).any fun st => T.bds (st + 1) ≠ num (st + 1) then none
      else
        some
          { numBoards := num
            boards := T.boards
            variants := T.variants
            suitGroups := T.suitGroups
            succBegin := fun st nst bd =>
              if st = 0 ∧ bd = 0 ∧ 0 < nst ∧ nst ≤ g.maxStreet then 0 else T.succBegin st nst bd
            succEnd := fun st nst bd =>
              if st = 0 ∧ bd = 0 ∧ 0 < nst ∧ nst ≤ g.maxStreet then num nst else T.succEnd st nst bd }

/-- The code of a board, exact in the floating-point arithmetic of `pow`. -/
def boardCode (st : Nat) (board : List Nat) : Nat :=
  ((List.range (g.numBoardCards st)).map fun i => board.getD i 0 * g.numCardsInDeck ^ i).sum

end SGame

namespace PCardTree

variable (g : SGame) (tree : PCardTree)

def createLookup (st : Nat) : Nat → Nat :=
  if st = 0 then fun _ => 0
  else
    (List.range (tree.numBoards st)).foldl
      (fun lookup bd => Function.update lookup (g.boardCode st (tree.boards st bd)) bd) fun _ => kMaxInt

/-- The number of a board; nothing where it is not in the table and the program exits. -/
def lookupBoard (board : List Nat) (st : Nat) : Option Nat :=
  let ret := tree.createLookup g st (g.boardCode st board)
  if ret = kMaxInt then none else some ret

def localIndex (rootSt rootBd st : Nat) (gbd : Int) : Int :=
  if st = rootSt then 0 else if rootSt = 0 then gbd else gbd - tree.succBegin rootSt st rootBd

def globalIndex (rootSt rootBd st : Nat) (lbd : Int) : Int :=
  if st = rootSt then rootBd else if rootSt = 0 then lbd else lbd + tree.succBegin rootSt st rootBd

/-- `BuildPredBoards` for a street, with the number of streets behind it. -/
def predBoardsFrom (maxStreet : Nat) : Nat → Nat → (Nat → Nat) → (Nat → Nat) → Nat → Nat
  | 0, st, predBds, table =>
    let pbd := predBds (st - 1)
    (List.range' (tree.succBegin (st - 1) st pbd) (tree.succEnd (st - 1) st pbd - tree.succBegin (st - 1) st pbd)).foldl
      (fun table nbd =>
        (List.range maxStreet).foldl (fun table st₁ => Function.update table (nbd * maxStreet + st₁) (predBds st₁)) table)
      table
  | left + 1, st, predBds, table =>
    let pbd := predBds (st - 1)
    (List.range' (tree.succBegin (st - 1) st pbd) (tree.succEnd (st - 1) st pbd - tree.succBegin (st - 1) st pbd)).foldl
      (fun table nbd => predBoardsFrom maxStreet left (st + 1) (Function.update predBds st nbd) table)
      table

/-- The predecessors of the final boards, in memory that held anything before. -/
def buildPredBoards (maxStreet : Nat) (memory : Nat → Nat) : Nat → Nat :=
  if maxStreet = 0 then memory
  else tree.predBoardsFrom maxStreet (maxStreet - 1) 1 (fun _ => 0) memory

def predBoard (maxStreet : Nat) (predBoards : Nat → Nat) (msbd pst : Nat) : Nat := predBoards (msbd * maxStreet + pst)

end PCardTree

/-- A board with its suit groups. -/
abbrev BoardNode := List Nat × SuitGroups

namespace SGame

variable (g : SGame)

/-- The boards of the next street that begin with a board. -/
def nextBoards (st : Nat) (x : BoardNode) : List BoardNode :=
  (((fallingCards x.1 (g.numCardsForStreet (st + 1)) g.numCardsInDeck).map (g.entryOf x.2)).filter
    fun e => e.numVariants ≠ 0).map fun e => (x.1 ++ e.cards, e.suitGroups)

/-- The boards of a street that begin with a board of an earlier one. -/
def boardsBelow (st : Nat) (x : BoardNode) (t : Nat) : List BoardNode :=
  if st ≤ t ∧ t ≤ g.maxStreet then descend g.nextBoards (t - st) st x else []

structure ValidNode (st : Nat) (x : BoardNode) : Prop where
  length : x.1.length = g.numBoardCards st
  nodup : x.1.Nodup
  cards : ∀ c ∈ x.1, c < g.numCardsInDeck
  groups : ValidGroups g.numSuits x.2

/-- A game whose streets `TypicalCards` handles, with suits that fit its arrays. -/
structure Dealable : Prop where
  suits : g.numSuits ≤ 4
  streets : ∀ n ∈ g.streetCards, n = 1 ∨ n = 2 ∨ n = 3

/-- What `Build` adds to the tables from a street on, board by board. -/
structure Built (low : Nat) (T T' : BoardTables) (rows : Nat → List BoardNode) : Prop where
  bds : ∀ t, T'.bds t = T.bds t + (rows t).length
  nodes : ∀ t i, i < (rows t).length →
    (rows t)[i]? = some (T'.boards t (T.bds t + i), T'.suitGroups t (T.bds t + i))
  kept : ∀ t b, b < T.bds t ∨ t < low → T'.boards t b = T.boards t b ∧ T'.suitGroups t b = T.suitGroups t b ∧
    ∀ n, T'.succBegin t n b = T.succBegin t n b ∧ T'.succEnd t n b = T.succEnd t n b
  ranges : ∀ t n i, t < n → n ≤ g.maxStreet → i < (rows t).length →
    T'.succBegin t n (T.bds t + i) = T.bds n + offset (descend g.nextBoards (n - t) t) (rows t) i ∧
      T'.succEnd t n (T.bds t + i) = T.bds n + offset (descend g.nextBoards (n - t) t) (rows t) (i + 1)
  below : ∀ t, t < low → rows t = []
  whole : ∀ t n, low ≤ t → t ≤ n → n ≤ g.maxStreet → rows n = (rows t).flatMap (descend g.nextBoards (n - t) t)

section

variable {g} {low st t left : Nat} {T T' T'' : BoardTables} {rows rows' : Nat → List BoardNode} {x y : BoardNode}

theorem numCardsForStreet_get (hst : st < g.maxStreet) :
    g.numCardsForStreet (st + 1) = g.streetCards.get ⟨st, hst⟩ := by
  have hlt : st < g.streetCards.length := hst
  simp [numCardsForStreet, hlt]

theorem Dealable.street (hg : g.Dealable) (hst : st < g.maxStreet) :
    g.numCardsForStreet (st + 1) = 1 ∨ g.numCardsForStreet (st + 1) = 2 ∨ g.numCardsForStreet (st + 1) = 3 := by
  apply hg.streets
  rw [numCardsForStreet_get hst]
  exact List.get_mem _ _

theorem numBoardCards_succ (hst : st < g.maxStreet) :
    g.numBoardCards (st + 1) = g.numBoardCards st + g.numCardsForStreet (st + 1) := by
  have hlt : st < g.streetCards.length := hst
  rw [numBoardCards, numBoardCards, List.take_add_one, List.sum_append, numCardsForStreet_get hst]
  simp [hlt]

/-- The boards that follow a board: it and falling new cards, where suits of one group have falling codes. -/
theorem mem_nextBoards (hg : g.Dealable) (hst : st < g.maxStreet) (hx : g.ValidNode st x) :
    y ∈ g.nextBoards st x ↔ ∃ cards ∈ fallingCards x.1 (g.numCardsForStreet (st + 1)) g.numCardsInDeck,
      (∀ s t, s < t → t < g.numSuits → groupOf x.2 s = groupOf x.2 t → g.seenRanks cards t ≤ g.seenRanks cards s) ∧
        y = (x.1 ++ cards, g.updateSuitGroups cards x.2) := by
  have hstreet := hg.street hst
  simp only [nextBoards, List.mem_map, List.mem_filter, decide_eq_true_eq]
  constructor
  · rintro ⟨e, ⟨⟨cards, hcards, rfl⟩, hvariants⟩, rfl⟩
    obtain ⟨hlength, hfall, -⟩ := mem_fallingCards.mp hcards
    refine ⟨cards, hcards, ?_, rfl⟩
    exact (entryOf_variants hg.suits hx.groups hfall (by omega)).2.mp hvariants
  · rintro ⟨cards, hcards, hcodes, rfl⟩
    obtain ⟨hlength, hfall, -⟩ := mem_fallingCards.mp hcards
    refine ⟨g.entryOf x.2 cards, ⟨⟨cards, hcards, rfl⟩, ?_⟩, rfl⟩
    exact (entryOf_variants hg.suits hx.groups hfall (by omega)).2.mpr hcodes

theorem ValidNode.next (hg : g.Dealable) (hst : st < g.maxStreet) (hx : g.ValidNode st x)
    (hy : y ∈ g.nextBoards st x) : g.ValidNode (st + 1) y := by
  obtain ⟨cards, hcards, -, rfl⟩ := (mem_nextBoards hg hst hx).mp hy
  obtain ⟨hlength, hfall, hnew⟩ := mem_fallingCards.mp hcards
  refine ⟨?_, ?_, ?_, updateSuitGroups_valid hg.suits⟩
  · rw [List.length_append, hx.length, hlength, numBoardCards_succ hst]
  · rw [List.nodup_append]
    refine ⟨hx.nodup, hfall.imp fun h => Nat.ne_of_gt h, ?_⟩
    rintro c hc d hd rfl
    exact (hnew c hd).2 hc
  · intro c hc
    rcases List.mem_append.mp hc with hc | hc
    · exact hx.cards c hc
    · exact (hnew c hc).1

theorem ValidNode.root : g.ValidNode 0 ([], noGroups) := ⟨rfl, List.nodup_nil, by simp, noGroups_valid g.numSuits⟩

theorem Built.refl (low : Nat) (T : BoardTables) : g.Built low T T fun _ => [] := by
  refine ⟨by simp, by simp, by simp, by simp, by simp, by simp⟩

/-- Boards that are added one after the other are added together. -/
theorem Built.trans (h : g.Built low T T' rows) (h' : g.Built low T' T'' rows') :
    g.Built low T T'' fun t => rows t ++ rows' t := by
  have hsum : ∀ t, T''.bds t = T.bds t + (rows t).length + (rows' t).length := by
    intro t
    rw [h'.bds, h.bds]
  refine ⟨?_, ?_, ?_, ?_, ?_, ?_⟩
  · intro t
    rw [hsum, List.length_append, Nat.add_assoc]
  · intro t i hi
    rw [List.length_append] at hi
    by_cases hlow : i < (rows t).length
    · obtain ⟨hboard, hgroups, -⟩ := h'.kept t (T.bds t + i) (.inl (by rw [h.bds]; omega))
      rw [List.getElem?_append_left hlow, hboard, hgroups]
      exact h.nodes t i hlow
    · rw [List.getElem?_append_right (by omega), h'.nodes t (i - (rows t).length) (by omega), h.bds]
      have hindex : T.bds t + (rows t).length + (i - (rows t).length) = T.bds t + i := by omega
      rw [hindex]
  · intro t b hb
    obtain ⟨hboard, hgroups, hranges⟩ := h.kept t b hb
    obtain ⟨hboard', hgroups', hranges'⟩ := h'.kept t b (hb.imp (fun hb => by rw [h.bds]; omega) id)
    refine ⟨hboard'.trans hboard, hgroups'.trans hgroups, ?_⟩
    intro n
    exact ⟨(hranges' n).1.trans (hranges n).1, (hranges' n).2.trans (hranges n).2⟩
  · intro t n i htn hn hi
    rw [List.length_append] at hi
    by_cases hlow : i < (rows t).length
    · obtain ⟨-, -, hkept⟩ := h'.kept t (T.bds t + i) (.inl (by rw [h.bds]; omega))
      rw [(hkept n).1, (hkept n).2, offset_append_left (by omega), offset_append_left (by omega)]
      exact h.ranges t n i htn hn hlow
    · have hlowT : low ≤ t := by
        by_contra hout
        have := h'.below t (by omega)
        rw [this] at hi
        simp only [List.length_nil] at hi
        omega
      obtain ⟨j, rfl⟩ := Nat.exists_eq_add_of_le (Nat.not_lt.mp hlow)
      obtain ⟨hbegin, hend⟩ := h'.ranges t n j htn hn (by omega)
      rw [h.bds, h.bds, Nat.add_assoc] at hbegin hend
      rw [hbegin, hend, offset_add_append, Nat.add_assoc (rows t).length, offset_add_append,
        ← h.whole t n hlowT htn.le hn]
      omega
  · intro t ht
    rw [h.below t ht, h'.below t ht]
    rfl
  · intro t n hlow htn hn
    rw [List.flatMap_append, ← h.whole t n hlow htn hn, ← h'.whole t n hlow htn hn]

theorem boardsBelow_self (hst : st ≤ g.maxStreet) : g.boardsBelow st y st = [y] := by
  rw [boardsBelow, if_pos ⟨le_refl st, hst⟩, Nat.sub_self]
  rfl

theorem boardsBelow_of_ne (hne : t ≠ st) :
    g.boardsBelow st y t = (g.nextBoards st y).flatMap fun z => g.boardsBelow (st + 1) z t := by
  unfold boardsBelow
  by_cases hin : st ≤ t ∧ t ≤ g.maxStreet
  · have hstep : t - st = t - (st + 1) + 1 := by omega
    rw [if_pos hin, hstep, descend]
    simp only [show st + 1 ≤ t ∧ t ≤ g.maxStreet by omega, and_self, if_true]
  · simp only [hin, show ¬(st + 1 ≤ t ∧ t ≤ g.maxStreet) by omega, if_false]
    exact (List.flatMap_eq_nil_iff.mpr fun _ _ => rfl).symm

theorem nextBoards_below (t : Nat) (ht : t ≤ st) :
    ((g.nextBoards st y).flatMap fun z => g.boardsBelow (st + 1) z t) = [] := by
  simp only [boardsBelow, show ¬(st + 1 ≤ t ∧ t ≤ g.maxStreet) by omega, if_false, List.flatMap_eq_nil_iff,
    implies_true]

theorem assign_bds_of_ne {e : TypicalEntry} (hne : t ≠ st) : (T.assign st y.1 e).bds t = T.bds t := by
  simp [BoardTables.assign, hne]

/-- A board that is added changes no other entry. -/
theorem assign_kept {e : TypicalEntry} {b : Nat} (hnot : ¬(t = st ∧ b = T.bds st)) :
    (T.assign st y.1 e).boards t b = T.boards t b ∧ (T.assign st y.1 e).suitGroups t b = T.suitGroups t b := by
  simp only [BoardTables.assign]
  by_cases ht : t = st
  · subst ht
    have hb : b ≠ T.bds t := fun hb => hnot ⟨rfl, hb⟩
    rw [Function.update_self, Function.update_self, Function.update_of_ne hb, Function.update_of_ne hb]
    exact ⟨rfl, rfl⟩
  · rw [Function.update_of_ne ht, Function.update_of_ne ht]
    exact ⟨rfl, rfl⟩

/-- A board is added, then the boards that begin with it, and then its ranges are set. -/
theorem Built.visit {e : TypicalEntry} (hst : st ≤ g.maxStreet) (hgroups : e.suitGroups = y.2)
    (h : g.Built (st + 1) (T.assign st y.1 e) T' fun t => (g.nextBoards st y).flatMap fun z => g.boardsBelow (st + 1) z t) :
    g.Built st T (T'.close g.maxStreet st (T.bds st) (T.assign st y.1 e).bds) (g.boardsBelow st y) := by
  have hself : (T.assign st y.1 e).bds st = T.bds st + 1 := by simp [BoardTables.assign]
  have hother : ∀ t, t ≠ st → (T.assign st y.1 e).bds t = T.bds t := fun t ht => assign_bds_of_ne ht
  have hbelow : ∀ t, t < st → g.boardsBelow st y t = [] := by
    intro t ht
    rw [boardsBelow, if_neg (by omega)]
  refine ⟨?_, ?_, ?_, ?_, hbelow, ?_⟩
  · intro t
    show T'.bds t = _
    rw [h.bds]
    by_cases ht : t = st
    · subst ht
      rw [hself, boardsBelow_self hst, nextBoards_below t (le_refl t)]
      rfl
    · rw [hother t ht, boardsBelow_of_ne ht]
  · intro t i hi
    show _ = some (T'.boards t (T.bds t + i), T'.suitGroups t (T.bds t + i))
    by_cases ht : t = st
    · subst ht
      rw [boardsBelow_self hst] at hi ⊢
      have hzero : i = 0 := by simpa using hi
      subst hzero
      obtain ⟨hboard, hsuits, -⟩ := h.kept t (T.bds t) (.inl (by rw [hself]; omega))
      rw [Nat.add_zero, hboard, hsuits]
      simp [BoardTables.assign, hgroups]
    · rw [boardsBelow_of_ne ht] at hi ⊢
      rw [h.nodes t i hi, hother t ht]
  · intro t b hb
    have hold : b < (T.assign st y.1 e).bds t ∨ t < st + 1 := by
      by_cases ht : t = st
      · right
        omega
      · rw [hother t ht]
        exact hb.imp id (by omega)
    have hnot : ¬(t = st ∧ b = T.bds st) := by
      rintro ⟨rfl, rfl⟩
      omega
    obtain ⟨hboard, hsuits, hranges⟩ := h.kept t b hold
    obtain ⟨hboard', hsuits'⟩ := assign_kept (y := y) (e := e) hnot
    refine ⟨hboard.trans hboard', hsuits.trans hsuits', ?_⟩
    intro n
    have hn : ¬(t = st ∧ b = T.bds st ∧ st < n ∧ n ≤ g.maxStreet) := by
      intro hin
      exact hnot ⟨hin.1, hin.2.1⟩
    simp only [BoardTables.close, hn, if_false]
    exact hranges n
  · intro t n i htn hn hi
    by_cases ht : t = st
    · subst ht
      rw [boardsBelow_self hst] at hi ⊢
      have hzero : i = 0 := by simpa using hi
      subst hzero
      have hlast : T'.bds n = T.bds n + (descend g.nextBoards (n - t) t y).length := by
        rw [h.bds, hother n (by omega), ← boardsBelow_of_ne (by omega), boardsBelow, if_pos ⟨htn.le, hn⟩]
      simp only [BoardTables.close, Nat.add_zero, htn, hn, and_self, if_true, offset_zero]
      refine ⟨hother n (by omega), ?_⟩
      rw [hlast]
      simp [offset]
    · have htlow : st < t := by
        by_contra hout
        rw [hbelow t (by omega)] at hi
        simp at hi
      simp only [BoardTables.close, ht, false_and, if_false]
      rw [boardsBelow_of_ne ht] at hi ⊢
      have hranges := h.ranges t n i htn hn hi
      rw [hother t ht, hother n (by omega)] at hranges
      exact hranges
  · intro t n hlow htn hn
    obtain ⟨k, rfl⟩ := Nat.exists_eq_add_of_le hlow
    obtain ⟨l, rfl⟩ := Nat.exists_eq_add_of_le htn
    rw [boardsBelow, boardsBelow, if_pos ⟨by omega, hn⟩, if_pos ⟨by omega, by omega⟩, Nat.add_sub_cancel_left,
      Nat.add_sub_cancel_left, Nat.add_assoc, Nat.add_sub_cancel_left]
    exact descend_add

/-- The boards that a list of entries adds behind a board. -/
def entryBoards (board : List Nat) (entries : List TypicalEntry) : List BoardNode :=
  (entries.filter fun e => e.numVariants ≠ 0).map fun e => (board ++ e.cards, e.suitGroups)

theorem entryBoards_cons (board : List Nat) (e : TypicalEntry) (entries : List TypicalEntry) :
    entryBoards board (e :: entries) =
      if e.numVariants = 0 then entryBoards board entries
      else (board ++ e.cards, e.suitGroups) :: entryBoards board entries := by
  by_cases h : e.numVariants = 0 <;> simp [entryBoards, h]

/-- `Build` adds the boards that begin with a board, on every street behind it. -/
theorem build_spec (hg : g.Dealable) (hleft : st + left = g.maxStreet) (hx : g.ValidNode st x) (T : BoardTables) :
    ∃ T', g.build left (st + 1) x.1 x.2 T = some T' ∧
      g.Built (st + 1) T T' fun t => (g.nextBoards st x).flatMap fun y => g.boardsBelow (st + 1) y t := by
  induction left generalizing st x T with
  | zero =>
    refine ⟨T, rfl, ?_⟩
    have hnone : (fun t => (g.nextBoards st x).flatMap fun y => g.boardsBelow (st + 1) y t) = fun _ => [] := by
      funext t
      simp only [boardsBelow, show ¬(st + 1 ≤ t ∧ t ≤ g.maxStreet) by omega, if_false, List.flatMap_eq_nil_iff,
        implies_true]
    rw [hnone]
    exact Built.refl _ T
  | succ left ih =>
    have hst : st < g.maxStreet := by omega
    have hfold : ∀ (entries : List TypicalEntry) (T : BoardTables),
        (∀ y ∈ entryBoards x.1 entries, g.ValidNode (st + 1) y) →
        ∃ T', entries.foldlM
            (fun T e =>
              if e.numVariants = 0 then some T
              else
                let T₁ := T.assign (st + 1) (x.1 ++ e.cards) e
                (g.build left (st + 1 + 1) (x.1 ++ e.cards) e.suitGroups T₁).map fun T₂ =>
                  T₂.close g.maxStreet (st + 1) (T.bds (st + 1)) T₁.bds)
            T = some T' ∧
          g.Built (st + 1) T T' fun t => (entryBoards x.1 entries).flatMap fun y => g.boardsBelow (st + 1) y t := by
      intro entries
      induction entries with
      | nil =>
        intro T _
        exact ⟨T, rfl, Built.refl _ T⟩
      | cons e entries ihe =>
        intro T hvalid
        rw [entryBoards_cons] at hvalid
        rw [List.foldlM_cons]
        by_cases hvariants : e.numVariants = 0
        · rw [if_pos hvariants] at hvalid
          obtain ⟨T', hT', hbuilt⟩ := ihe T hvalid
          rw [if_pos hvariants]
          refine ⟨T', hT', ?_⟩
          simpa only [entryBoards_cons, if_pos hvariants] using hbuilt
        · rw [if_neg hvariants] at hvalid
          have hnext : st + 1 + left = g.maxStreet := by omega
          obtain ⟨T₂, hT₂, hbuilt₂⟩ := ih hnext (hvalid (x.1 ++ e.cards, e.suitGroups) (by simp))
            (T.assign (st + 1) (x.1 ++ e.cards) e)
          have hvisit := Built.visit (y := (x.1 ++ e.cards, e.suitGroups)) (by omega) rfl hbuilt₂
          obtain ⟨T', hT', hbuilt⟩ := ihe _ fun y hy => hvalid y (List.mem_cons_of_mem _ hy)
          rw [if_neg hvariants]
          dsimp only
          rw [hT₂]
          refine ⟨T', hT', ?_⟩
          simpa only [entryBoards_cons, if_neg hvariants, List.flatMap_cons] using hvisit.trans hbuilt
    rw [build, typicalCards_eq hg.suits hx.groups hx.nodup hx.cards (hg.street hst), Option.bind_some]
    exact hfold _ T fun y hy => hx.next hg hst hy

/-- `Count` counts the same boards. -/
theorem count_spec (hg : g.Dealable) (hleft : st + left = g.maxStreet) (hx : g.ValidNode st x) (num : Nat → Nat) :
    ∃ num', g.count left (st + 1) x.1 x.2 num = some num' ∧
      ∀ t, num' t = num t + ((g.nextBoards st x).flatMap fun y => g.boardsBelow (st + 1) y t).length := by
  induction left generalizing st x num with
  | zero =>
    refine ⟨num, rfl, ?_⟩
    intro t
    simp only [boardsBelow, show ¬(st + 1 ≤ t ∧ t ≤ g.maxStreet) by omega, if_false]
    simp
  | succ left ih =>
    have hst : st < g.maxStreet := by omega
    have hfold : ∀ (entries : List TypicalEntry) (num : Nat → Nat),
        (∀ y ∈ entryBoards x.1 entries, g.ValidNode (st + 1) y) →
        ∃ num', entries.foldlM
            (fun num e =>
              if e.numVariants = 0 then some num
              else g.count left (st + 1 + 1) (x.1 ++ e.cards) e.suitGroups num)
            num = some num' ∧
          ∀ t, num' t = num t +
            if t = st + 1 then 0 else ((entryBoards x.1 entries).flatMap fun y => g.boardsBelow (st + 1) y t).length := by
      intro entries
      induction entries with
      | nil =>
        intro num _
        exact ⟨num, rfl, by simp [entryBoards]⟩
      | cons e entries ihe =>
        intro num hvalid
        rw [entryBoards_cons] at hvalid
        rw [List.foldlM_cons]
        by_cases hvariants : e.numVariants = 0
        · rw [if_pos hvariants] at hvalid
          simp only [entryBoards_cons, if_pos hvariants]
          exact ihe num hvalid
        · rw [if_neg hvariants] at hvalid
          have hnext : st + 1 + left = g.maxStreet := by omega
          obtain ⟨num₁, hnum₁, hcount₁⟩ := ih hnext (hvalid (x.1 ++ e.cards, e.suitGroups) (by simp)) num
          obtain ⟨num', hnum', hcount⟩ := ihe num₁ fun y hy => hvalid y (List.mem_cons_of_mem _ hy)
          rw [if_neg hvariants, hnum₁]
          refine ⟨num', hnum', ?_⟩
          intro t
          rw [hcount, hcount₁]
          by_cases ht : t = st + 1
          · rw [if_pos ht, if_pos ht, nextBoards_below t (by omega)]
            rfl
          · rw [if_neg ht, if_neg ht, entryBoards_cons, if_neg hvariants, List.flatMap_cons, List.length_append,
              boardsBelow_of_ne ht, Nat.add_assoc]
    have hnum : ((fallingCards x.1 (g.numCardsForStreet (st + 1)) g.numCardsInDeck).map (g.entryOf x.2)).countP
        (fun e => e.numMappings ≠ 0) = (g.nextBoards st x).length := by
      have hstreet := hg.street hst
      rw [nextBoards, List.length_map, List.countP_eq_length_filter]
      congr 1
      apply List.filter_congr
      intro e he
      obtain ⟨cards, hcards, rfl⟩ := List.mem_map.mp he
      obtain ⟨hlength, hfall, -⟩ := mem_fallingCards.mp hcards
      have hvariants := (entryOf_variants hg.suits hx.groups hfall (by omega)).1
      simp only [hvariants]
    rw [count, typicalCards_eq hg.suits hx.groups hx.nodup hx.cards (hg.street hst), Option.bind_some, hnum]
    obtain ⟨num', hnum', hcount⟩ := hfold ((fallingCards x.1 (g.numCardsForStreet (st + 1)) g.numCardsInDeck).map
      (g.entryOf x.2)) (Function.update num (st + 1) (num (st + 1) + (g.nextBoards st x).length))
      fun y hy => hx.next hg hst hy
    refine ⟨num', hnum', ?_⟩
    intro t
    rw [hcount]
    by_cases ht : t = st + 1
    · subst ht
      have hself : (g.nextBoards st x).flatMap (fun y => g.boardsBelow (st + 1) y (st + 1)) = g.nextBoards st x := by
        simp only [boardsBelow_self (show st + 1 ≤ g.maxStreet by omega), List.flatMap_singleton']
      rw [if_pos rfl, hself]
      simp
    · rw [if_neg ht, Function.update_of_ne ht]
      rfl

end

end SGame

end MasterAI
