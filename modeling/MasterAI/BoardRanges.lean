import MasterAI.PCardTree
import Mathlib.Data.Nat.Digits.Lemmas

namespace MasterAI

namespace SGame

variable (g : SGame)

/-- The boards of a street, in the order in which they are built. -/
def streetBoards (st : Nat) : List BoardNode := descend g.nextBoards st 0 ([], noGroups)

/-- How many boards of a later street are built before those of a board. -/
def firstBelow (st nst bd : Nat) : Nat := offset (descend g.nextBoards (nst - st) st) (g.streetBoards st) bd

/-- The tables of a board tree that lists the boards of every street with their ranges. -/
structure Indexed (tree : PCardTree) : Prop where
  numBoards : ∀ st ≤ g.maxStreet, tree.numBoards st = (g.streetBoards st).length
  nodes : ∀ st ≤ g.maxStreet, ∀ bd < (g.streetBoards st).length,
    (g.streetBoards st)[bd]? = some (tree.boards st bd, tree.suitGroups st bd)
  ranges : ∀ st nst bd, st < nst → nst ≤ g.maxStreet → bd < (g.streetBoards st).length →
    tree.succBegin st nst bd = g.firstBelow st nst bd ∧ tree.succEnd st nst bd = g.firstBelow st nst (bd + 1)

section

variable {g} {st nst t k bd bd' : Nat} {x y : BoardNode} {tree : PCardTree}

theorem streetBoards_flatMap (hst : st ≤ nst) :
    g.streetBoards nst = (g.streetBoards st).flatMap (descend g.nextBoards (nst - st) st) := by
  obtain ⟨k, rfl⟩ := Nat.exists_eq_add_of_le hst
  rw [streetBoards, descend_add, Nat.zero_add, Nat.add_sub_cancel_left]
  rfl

theorem streetBoards_succ : g.streetBoards (st + 1) = (g.streetBoards st).flatMap (g.nextBoards st) := by
  rw [streetBoards_flatMap (show st ≤ st + 1 by omega), Nat.add_sub_cancel_left]
  congr 1
  funext x
  simp [descend]

theorem streetBoards_below (hst : 0 < st) (hmax : st ≤ g.maxStreet) :
    ((g.nextBoards 0 ([], noGroups)).flatMap fun y => g.boardsBelow 1 y st) = g.streetBoards st := by
  rw [← boardsBelow_of_ne (by omega), boardsBelow, if_pos ⟨by omega, hmax⟩]
  rfl

theorem firstBelow_length (hst : st ≤ nst) :
    g.firstBelow st nst (g.streetBoards st).length = (g.streetBoards nst).length := by
  rw [firstBelow, offset_length, ← streetBoards_flatMap hst]

/-- `Create` comes through, counts as many boards as it builds, and lists every board with its ranges. -/
theorem create_indexed (hg : g.Dealable) :
    ∃ num T tree, (g.count g.maxStreet 1 [] noGroups fun st => if st = 0 then 1 else 0) = some num ∧
      g.build g.maxStreet 1 [] noGroups emptyTables = some T ∧
      (∀ st, 0 < st → st ≤ g.maxStreet → T.bds st = num st) ∧
      g.create = some tree ∧ tree.numBoards = num ∧ g.Indexed tree := by
  have hroot := ValidNode.root (g := g)
  obtain ⟨num, hnum, hcount⟩ := count_spec hg (Nat.zero_add _) hroot fun st => if st = 0 then 1 else 0
  obtain ⟨T, hT, hbuilt⟩ := build_spec hg (Nat.zero_add _) hroot emptyTables
  have hnumSt : ∀ st, 0 < st → st ≤ g.maxStreet → num st = (g.streetBoards st).length := by
    intro st hst hmax
    rw [hcount, if_neg (by omega), Nat.zero_add, streetBoards_below hst hmax]
  have hbds : ∀ st, 0 < st → st ≤ g.maxStreet → T.bds st = num st := by
    intro st hst hmax
    rw [hbuilt.bds, hnumSt st hst hmax, streetBoards_below hst hmax]
    exact Nat.zero_add _
  have hcheck : ¬((List.range g.maxStreet).any fun st => T.bds (st + 1) ≠ num (st + 1)) = true := by
    simp only [List.any_eq_true, List.mem_range, decide_eq_true_eq, not_exists, not_and, not_not]
    intro st hst
    exact hbds (st + 1) (by omega) (by omega)
  have hnumZero : num 0 = 1 := by
    rw [hcount, nextBoards_below 0 (le_refl 0)]
    rfl
  have hcreate : g.create = g.create := rfl
  conv_rhs at hcreate =>
    rw [create, show 1 = 0 + 1 from rfl, hnum, Option.bind_some, hT, Option.bind_some, if_neg hcheck]
  refine ⟨num, T, _, hnum, hT, hbds, hcreate, rfl, ?_, ?_, ?_⟩
  · intro st hmax
    by_cases hst : st = 0
    · rw [hst]
      exact hnumZero
    · exact hnumSt st (by omega) hmax
  · intro st hmax bd hbd
    by_cases hst : st = 0
    · subst hst
      have hzero : bd = 0 := by simpa [streetBoards, descend] using hbd
      obtain ⟨hboard, hgroups, -⟩ := hbuilt.kept 0 0 (.inr Nat.one_pos)
      subst hzero
      show _ = some (T.boards 0 0, T.suitGroups 0 0)
      rw [hboard, hgroups]
      rfl
    · have hnodes := hbuilt.nodes st bd
      rw [streetBoards_below (by omega) hmax] at hnodes
      simpa [emptyTables] using hnodes hbd
  · intro st nst bd hlt hmax hbd
    by_cases hst : st = 0
    · subst hst
      have hzero : bd = 0 := by simpa [streetBoards, descend] using hbd
      subst hzero
      simp only [hlt, hmax, and_self, if_true]
      refine ⟨rfl, ?_⟩
      rw [hnumSt nst hlt hmax]
      exact (firstBelow_length hlt.le).symm
    · have hranges := hbuilt.ranges st nst bd hlt hmax
      rw [streetBoards_below (by omega) (by omega)] at hranges
      simp only [hst, false_and, if_false]
      simpa [emptyTables, firstBelow] using hranges hbd

theorem streetBoards_valid (hg : g.Dealable) (hst : st ≤ g.maxStreet) (hx : x ∈ g.streetBoards st) :
    g.ValidNode st x := by
  induction st generalizing x with
  | zero =>
    rw [streetBoards, descend, List.mem_singleton] at hx
    rw [hx]
    exact ValidNode.root
  | succ st ih =>
    rw [streetBoards_succ, List.mem_flatMap] at hx
    obtain ⟨z, hz, hx⟩ := hx
    exact (ih (by omega) hz).next hg (by omega) hx

theorem numBoardCards_mono (hst : st ≤ nst) : g.numBoardCards st ≤ g.numBoardCards nst := by
  obtain ⟨k, rfl⟩ := Nat.exists_eq_add_of_le hst
  rw [numBoardCards, numBoardCards, List.take_add, List.sum_append]
  omega

/-- A board begins with the boards above it. -/
theorem descend_take (hg : g.Dealable) (hst : st + k ≤ g.maxStreet) (hx : g.ValidNode st x)
    (hy : y ∈ descend g.nextBoards k st x) : y.1.take (g.numBoardCards st) = x.1 := by
  induction k generalizing st x with
  | zero =>
    rw [descend, List.mem_singleton] at hy
    rw [hy, ← hx.length, List.take_length]
  | succ k ih =>
    rw [descend, List.mem_flatMap] at hy
    obtain ⟨z, hz, hy⟩ := hy
    have hbelow := ih (by omega) (hx.next hg (by omega) hz) hy
    obtain ⟨cards, -, -, rfl⟩ := (mem_nextBoards hg (by omega) hx).mp hz
    have hle := numBoardCards_mono (g := g) (Nat.le_succ st)
    have hshort : (y.1.take (g.numBoardCards (st + 1))).take (g.numBoardCards st) = y.1.take (g.numBoardCards st) := by
      rw [List.take_take, Nat.min_eq_left hle]
    rw [← hshort, hbelow, ← hx.length, List.take_left]

theorem nextBoards_distinct : ((g.nextBoards st x).map Prod.fst).Nodup := by
  rw [nextBoards, List.map_map]
  have hentries : ((fallingCards x.1 (g.numCardsForStreet (st + 1)) g.numCardsInDeck).map (g.entryOf x.2)).Nodup := by
    refine fallingCards_nodup.map ?_
    intro cards cards' heq
    exact congrArg TypicalEntry.cards heq
  refine (hentries.filter _).map_on ?_
  intro e he e' he' heq
  obtain ⟨cards, -, rfl⟩ := List.mem_map.mp (List.mem_filter.mp he).1
  obtain ⟨cards', -, rfl⟩ := List.mem_map.mp (List.mem_filter.mp he').1
  have hcards : cards = cards' := List.append_cancel_left heq
  rw [hcards]

/-- The boards of a street are pairwise different. -/
theorem streetBoards_distinct (hg : g.Dealable) (hst : st ≤ g.maxStreet) :
    ((g.streetBoards st).map Prod.fst).Nodup := by
  induction st with
  | zero => simp [streetBoards, descend]
  | succ st ih =>
    rw [streetBoards_succ, List.map_flatMap, List.nodup_flatMap]
    refine ⟨fun x _ => nextBoards_distinct, ?_⟩
    have hpairs := List.pairwise_map.mp (ih (by omega))
    refine hpairs.imp_of_mem ?_
    intro x x' hx hx' hne board hboard hboard'
    obtain ⟨y, hy, rfl⟩ := List.mem_map.mp hboard
    obtain ⟨y', hy', heq⟩ := List.mem_map.mp hboard'
    have hdown : ∀ {x y : BoardNode}, y ∈ g.nextBoards st x → y ∈ descend g.nextBoards 1 st x := by
      intro x y hy
      simpa [descend] using hy
    have hinit := descend_take hg hst (streetBoards_valid hg (by omega) hx) (hdown hy)
    have hinit' := descend_take hg hst (streetBoards_valid hg (by omega) hx') (hdown hy')
    rw [heq] at hinit'
    exact hne (hinit.symm.trans hinit')

end

section

variable {g} {st nst bd bd' b : Nat} {tree : PCardTree} {board board' : List Nat}

theorem Indexed.mem (h : g.Indexed tree) (hst : st ≤ g.maxStreet) (hbd : bd < (g.streetBoards st).length) :
    (tree.boards st bd, tree.suitGroups st bd) ∈ g.streetBoards st :=
  List.mem_of_getElem? (h.nodes st hst bd hbd)

theorem Indexed.valid (h : g.Indexed tree) (hg : g.Dealable) (hst : st ≤ g.maxStreet)
    (hbd : bd < (g.streetBoards st).length) : g.ValidNode st (tree.boards st bd, tree.suitGroups st bd) :=
  streetBoards_valid hg hst (h.mem hst hbd)

theorem Indexed.board_inj (h : g.Indexed tree) (hg : g.Dealable) (hst : st ≤ g.maxStreet)
    (hbd : bd < (g.streetBoards st).length) (hbd' : bd' < (g.streetBoards st).length)
    (heq : tree.boards st bd = tree.boards st bd') : bd = bd' := by
  have hget : ∀ i < (g.streetBoards st).length, ((g.streetBoards st).map Prod.fst)[i]? = some (tree.boards st i) := by
    intro i hi
    rw [List.getElem?_map, h.nodes st hst i hi]
    rfl
  apply (List.getElem?_inj (by rw [List.length_map]; exact hbd) (streetBoards_distinct hg hst)).mp
  rw [hget bd hbd, hget bd' hbd', heq]

/-- The boards between the ends of a board's range begin with it, and no others do. -/
theorem Indexed.range_iff (h : g.Indexed tree) (hg : g.Dealable) (hst : st ≤ nst) (hmax : nst ≤ g.maxStreet)
    (hbd : bd < (g.streetBoards st).length) (hb : b < (g.streetBoards nst).length) :
    (g.firstBelow st nst bd ≤ b ∧ b < g.firstBelow st nst (bd + 1)) ↔
      (tree.boards nst b).take (g.numBoardCards st) = tree.boards st bd := by
  have hinside : ∀ bd < (g.streetBoards st).length, g.firstBelow st nst bd ≤ b → b < g.firstBelow st nst (bd + 1) →
      (tree.boards nst b).take (g.numBoardCards st) = tree.boards st bd := by
    intro bd hbd hlo hhi
    obtain ⟨i, rfl⟩ := Nat.exists_eq_add_of_le hlo
    have hnode : (g.streetBoards st)[bd] = (tree.boards st bd, tree.suitGroups st bd) := by
      have hget := h.nodes st (by omega) bd hbd
      rw [List.getElem?_eq_getElem hbd] at hget
      exact Option.some.inj hget
    have hi : i < (descend g.nextBoards (nst - st) st (g.streetBoards st)[bd]).length := by
      rw [firstBelow, firstBelow, offset_succ hbd] at hhi
      omega
    have hmem := h.nodes nst hmax _ hb
    rw [streetBoards_flatMap hst, firstBelow, getElem?_offset hbd hi, hnode] at hmem
    have hvalid := h.valid hg (by omega) hbd
    exact descend_take hg (by omega) hvalid (List.mem_of_getElem? hmem)
  constructor
  · intro hrange
    exact hinside bd hbd hrange.1 hrange.2
  · intro htake
    rw [streetBoards_flatMap hst] at hb
    obtain ⟨bd', hbd', hlo, hhi⟩ := exists_offset hb
    have hinit := hinside bd' hbd' hlo hhi
    rw [htake] at hinit
    rw [h.board_inj hg (by omega) hbd hbd' hinit]
    exact ⟨hlo, hhi⟩

theorem boardCode_eq (hlength : board.length = g.numBoardCards st) :
    g.boardCode st board = Nat.ofDigits g.numCardsInDeck board := by
  rw [boardCode, Nat.ofDigits_eq_sum_mapIdx]
  congr 1
  apply List.ext_getElem
  · simp [hlength]
  · intro i hi hi'
    rw [List.length_mapIdx] at hi'
    simp [List.getElem?_eq_getElem hi']

theorem deck_pos : 0 < g.numCardsInDeck := Nat.mul_pos g.ranks_pos g.suits_pos

/-- Two boards with one code are one board. -/
theorem boardCode_inj (hlength : board.length = g.numBoardCards st) (hlength' : board'.length = g.numBoardCards st)
    (hcards : ∀ c ∈ board, c < g.numCardsInDeck) (hcards' : ∀ c ∈ board', c < g.numCardsInDeck)
    (hcode : g.boardCode st board = g.boardCode st board') : board = board' := by
  rw [boardCode_eq hlength, boardCode_eq hlength'] at hcode
  have hpos := deck_pos (g := g)
  by_cases hone : g.numCardsInDeck = 1
  · rw [hone] at hcards hcards'
    have hzero : ∀ c ∈ board, c = 0 := fun c hc => by have := hcards c hc; omega
    have hzero' : ∀ c ∈ board', c = 0 := fun c hc => by have := hcards' c hc; omega
    rw [List.eq_replicate_of_mem hzero, List.eq_replicate_of_mem hzero', hlength, hlength']
  · exact Nat.ofDigits_inj_of_len_eq (by omega) (hlength.trans hlength'.symm) hcards hcards' hcode

theorem boardCode_lt (hlength : board.length = g.numBoardCards st) (hcards : ∀ c ∈ board, c < g.numCardsInDeck) :
    g.boardCode st board < g.numCardsInDeck ^ g.numBoardCards st := by
  have hpos := deck_pos (g := g)
  rw [boardCode_eq hlength, ← hlength]
  by_cases hone : g.numCardsInDeck = 1
  · rw [hone] at hcards
    have hzero : ∀ c ∈ board, c = 0 := fun c hc => by have := hcards c hc; omega
    rw [List.eq_replicate_of_mem hzero, Nat.ofDigits_replicate_zero]
    exact Nat.pow_pos hpos
  · exact Nat.ofDigits_lt_base_pow_length (by omega) hcards

/-- There are no more boards than codes. -/
theorem streetBoards_length_le (hg : g.Dealable) (hst : st ≤ g.maxStreet) :
    (g.streetBoards st).length ≤ g.numCardsInDeck ^ g.numBoardCards st := by
  have hvalid : ∀ board ∈ (g.streetBoards st).map Prod.fst,
      board.length = g.numBoardCards st ∧ ∀ c ∈ board, c < g.numCardsInDeck := by
    intro board hboard
    obtain ⟨x, hx, rfl⟩ := List.mem_map.mp hboard
    have hx := streetBoards_valid hg hst hx
    exact ⟨hx.length, hx.cards⟩
  have hcodes : (((g.streetBoards st).map Prod.fst).map (g.boardCode st)).Nodup := by
    refine (streetBoards_distinct hg hst).map_on ?_
    intro board hboard board' hboard' hcode
    obtain ⟨hlength, hcards⟩ := hvalid board hboard
    obtain ⟨hlength', hcards'⟩ := hvalid board' hboard'
    exact boardCode_inj hlength hlength' hcards hcards' hcode
  have hsubset : ((g.streetBoards st).map Prod.fst).map (g.boardCode st) ⊆
      List.range (g.numCardsInDeck ^ g.numBoardCards st) := by
    intro code hcode
    obtain ⟨board, hboard, rfl⟩ := List.mem_map.mp hcode
    obtain ⟨hlength, hcards⟩ := hvalid board hboard
    exact List.mem_range.mpr (boardCode_lt hlength hcards)
  have hle := (List.subperm_of_subset hcodes hsubset).length_le
  rw [List.length_map, List.length_map, List.length_range] at hle
  exact hle

theorem foldl_update_range {f : Nat → Nat} {n : Nat} (lookup : Nat → Nat)
    (hinj : ∀ a < n, ∀ b < n, f a = f b → a = b) (hbd : bd < n) :
    (List.range n).foldl (fun lookup b => Function.update lookup (f b) b) lookup (f bd) = bd := by
  induction n with
  | zero => omega
  | succ n ih =>
    rw [List.range_succ, List.foldl_append, List.foldl_cons, List.foldl_nil]
    by_cases hlast : bd = n
    · rw [hlast, Function.update_self]
    · have hne : f bd ≠ f n := by
        intro heq
        exact hlast (hinj bd hbd n (by omega) heq)
      rw [Function.update_of_ne hne]
      exact ih (fun a ha b hb => hinj a (by omega) b (by omega)) (by omega)

/-- The number of boards and of codes stays below the value that marks a code without a board. -/
theorem streetBoards_lt_kMaxInt (hg : g.Dealable) (hst : st ≤ g.maxStreet) (hdeck : g.numCardsInDeck ≤ 52)
    (hcards : g.numBoardCards g.maxStreet ≤ 5) : (g.streetBoards st).length < kMaxInt := by
  have hstreet := numBoardCards_mono (g := g) hst
  calc (g.streetBoards st).length ≤ g.numCardsInDeck ^ g.numBoardCards st := streetBoards_length_le hg hst
    _ ≤ 52 ^ g.numBoardCards st := Nat.pow_le_pow_left hdeck _
    _ ≤ 52 ^ 5 := Nat.pow_le_pow_right (by omega) (by omega)
    _ < kMaxInt := by decide

theorem Indexed.lookupBoard (h : g.Indexed tree) (hg : g.Dealable) (hst : st ≤ g.maxStreet)
    (hdeck : g.numCardsInDeck ≤ 52) (hcards : g.numBoardCards g.maxStreet ≤ 5)
    (hbd : bd < (g.streetBoards st).length) : tree.lookupBoard g (tree.boards st bd) st = some bd := by
  have hfound : tree.createLookup g st (g.boardCode st (tree.boards st bd)) = bd := by
    unfold PCardTree.createLookup
    by_cases hzero : st = 0
    · subst hzero
      have hone : bd = 0 := by simpa [streetBoards, descend] using hbd
      rw [if_pos rfl, hone]
    · rw [if_neg hzero, h.numBoards st hst]
      apply foldl_update_range (f := fun bd => g.boardCode st (tree.boards st bd)) _ _ hbd
      intro a ha b hb hcode
      have hva := h.valid hg hst ha
      have hvb := h.valid hg hst hb
      exact h.board_inj hg hst ha hb (boardCode_inj hva.length hvb.length hva.cards hvb.cards hcode)
  have hlt := streetBoards_lt_kMaxInt hg hst hdeck hcards
  simp only [PCardTree.lookupBoard, hfound]
  rw [if_neg (by omega)]

end

section

variable (g : SGame)

/-- A row of the predecessor table: on every street the board whose range holds the final board. -/
def RowFilled (table : Nat → Nat) (row : Nat) : Prop :=
  ∀ t < g.maxStreet, table (row * g.maxStreet + t) < (g.streetBoards t).length ∧
    g.firstBelow t g.maxStreet (table (row * g.maxStreet + t)) ≤ row ∧
      row < g.firstBelow t g.maxStreet (table (row * g.maxStreet + t) + 1)

/-- The rows between two bounds are filled and the others are as they were. -/
def RowsFilled (lo hi : Nat) (table table' : Nat → Nat) : Prop :=
  (∀ row, lo ≤ row → row < hi → g.RowFilled table' row) ∧
    ∀ row t, t < g.maxStreet → row < lo ∨ hi ≤ row → table' (row * g.maxStreet + t) = table (row * g.maxStreet + t)

variable {g} {st t nst lo mid hi n row left : Nat} {table table' table'' : Nat → Nat} {tree : PCardTree}

theorem RowsFilled.trans (h : g.RowsFilled lo mid table table') (h' : g.RowsFilled mid hi table' table'')
    (hlo : lo ≤ mid) (hhi : mid ≤ hi) : g.RowsFilled lo hi table table'' := by
  refine ⟨?_, ?_⟩
  · intro row hrow hrow'
    by_cases hmid : row < mid
    · intro t ht
      rw [h'.2 row t ht (.inl hmid)]
      exact h.1 row hrow hmid t ht
    · exact h'.1 row (by omega) hrow'
  · intro row t ht hout
    rw [h'.2 row t ht (by omega), h.2 row t ht (by omega)]

/-- A loop that fills the rows of one board after the other fills all of them. -/
theorem foldl_rowsFilled {f : Nat → Nat} {s : (Nat → Nat) → Nat → Nat → Nat} (hmono : Monotone f) (first n : Nat)
    (hstep : ∀ b table, first ≤ b → b < first + n → g.RowsFilled (f b) (f (b + 1)) table (s table b)) (table : Nat → Nat) :
    g.RowsFilled (f first) (f (first + n)) table ((List.range' first n).foldl s table) := by
  induction n generalizing first table with
  | zero =>
    refine ⟨?_, fun _ _ _ _ => rfl⟩
    intro row hlo hhi
    rw [Nat.add_zero] at hhi
    omega
  | succ n ih =>
    rw [List.range'_succ, List.foldl_cons]
    have hrest := ih (first + 1) (fun b table hlo hhi => hstep b table (by omega) (by omega)) (s table first)
    rw [Nat.add_right_comm, Nat.add_assoc] at hrest
    exact (hstep first table (le_refl _) (by omega)).trans hrest (hmono (by omega)) (hmono (by omega))

theorem foldl_update_row (base n : Nat) (v : Nat → Nat) (table : Nat → Nat) (i : Nat) :
    (List.range n).foldl (fun table t => Function.update table (base + t) (v t)) table i =
      if base ≤ i ∧ i < base + n then v (i - base) else table i := by
  induction n with
  | zero =>
    rw [if_neg (by omega)]
    rfl
  | succ n ih =>
    rw [List.range_succ, List.foldl_append, List.foldl_cons, List.foldl_nil, Function.update_apply, ih]
    by_cases hlast : i = base + n
    · rw [if_pos hlast, if_pos (by omega), hlast, Nat.add_sub_cancel_left]
    · rw [if_neg hlast]
      by_cases hin : base ≤ i ∧ i < base + n
      · rw [if_pos hin, if_pos (by omega)]
      · rw [if_neg hin, if_neg (by omega)]

theorem firstBelow_mono : Monotone (g.firstBelow st nst) := fun _ _ h => offset_mono h

/-- The ranges of the boards of a street lie in the ranges of the boards above them. -/
theorem firstBelow_firstBelow (hst : t ≤ st) (hmax : st ≤ nst) (bd : Nat) :
    g.firstBelow st nst (g.firstBelow t st bd) = g.firstBelow t nst bd := by
  obtain ⟨k, rfl⟩ := Nat.exists_eq_add_of_le hst
  obtain ⟨l, rfl⟩ := Nat.exists_eq_add_of_le hmax
  rw [firstBelow, firstBelow, firstBelow, streetBoards_flatMap hst, Nat.add_sub_cancel_left, Nat.add_assoc,
    Nat.add_sub_cancel_left, Nat.add_sub_cancel_left]
  exact offset_offset

theorem firstBelow_le_length (hst : st ≤ nst) {bd : Nat} (hbd : bd ≤ (g.streetBoards st).length) :
    g.firstBelow st nst bd ≤ (g.streetBoards nst).length := by
  rw [← firstBelow_length hst]
  exact firstBelow_mono hbd

theorem firstBelow_self {bd : Nat} (hbd : bd ≤ (g.streetBoards st).length) : g.firstBelow st st bd = bd := by
  have hone : descend g.nextBoards 0 st = fun x => [x] := rfl
  rw [firstBelow, Nat.sub_self, hone, offset, List.flatMap_singleton', List.length_take, Nat.min_eq_left hbd]

/-- The predecessors of a board on the streets above it, each with the board in its range. -/
def PredsAbove (g : SGame) (st : Nat) (predBds : Nat → Nat) : Prop :=
  ∀ t ≤ st, predBds t < (g.streetBoards t).length ∧
    g.firstBelow t g.maxStreet (predBds t) ≤ g.firstBelow st g.maxStreet (predBds st) ∧
      g.firstBelow st g.maxStreet (predBds st + 1) ≤ g.firstBelow t g.maxStreet (predBds t + 1)

variable {predBds : Nat → Nat}

/-- The loop over the boards of the next street, where each fills its own rows. -/
theorem predBoards_loop (h : g.Indexed tree) (hst : st + 1 ≤ g.maxStreet) {bd : Nat}
    (hbd : bd < (g.streetBoards st).length) {s : (Nat → Nat) → Nat → Nat → Nat}
    (hstep : ∀ b table, g.firstBelow st (st + 1) bd ≤ b → b < g.firstBelow st (st + 1) (bd + 1) →
      g.RowsFilled (g.firstBelow (st + 1) g.maxStreet b) (g.firstBelow (st + 1) g.maxStreet (b + 1)) table (s table b))
    (table : Nat → Nat) :
    g.RowsFilled (g.firstBelow st g.maxStreet bd) (g.firstBelow st g.maxStreet (bd + 1)) table
      ((List.range' (tree.succBegin st (st + 1) bd)
        (tree.succEnd st (st + 1) bd - tree.succBegin st (st + 1) bd)).foldl s table) := by
  obtain ⟨hbegin, hend⟩ := h.ranges st (st + 1) bd (by omega) hst hbd
  have hle : g.firstBelow st (st + 1) bd ≤ g.firstBelow st (st + 1) (bd + 1) := firstBelow_mono (Nat.le_succ _)
  have hfold := foldl_rowsFilled (g := g) (f := g.firstBelow (st + 1) g.maxStreet) (s := s) firstBelow_mono
    (g.firstBelow st (st + 1) bd) (g.firstBelow st (st + 1) (bd + 1) - g.firstBelow st (st + 1) bd)
  rw [Nat.add_sub_cancel' hle, firstBelow_firstBelow (by omega) hst, firstBelow_firstBelow (by omega) hst] at hfold
  rw [hbegin, hend]
  exact hfold hstep table

/-- The row of a final board gets the predecessors that the program stands at. -/
theorem rowsFilled_row (hst : st + 1 = g.maxStreet) (hpred : PredsAbove g st predBds) {b : Nat}
    (hlo : g.firstBelow st (st + 1) (predBds st) ≤ b) (hhi : b < g.firstBelow st (st + 1) (predBds st + 1))
    (table : Nat → Nat) :
    g.RowsFilled b (b + 1) table
      ((List.range g.maxStreet).foldl
        (fun table t => Function.update table (b * g.maxStreet + t) (predBds t)) table) := by
  rw [hst] at hlo hhi
  refine ⟨?_, ?_⟩
  · intro row hrow hrow' t ht
    have hrow : row = b := by omega
    have hvalue : (List.range g.maxStreet).foldl
        (fun table t => Function.update table (b * g.maxStreet + t) (predBds t)) table (b * g.maxStreet + t) = predBds t := by
      rw [foldl_update_row, if_pos (by omega), Nat.add_sub_cancel_left]
    obtain ⟨hbd, hfirst, hlast⟩ := hpred t (by omega)
    rw [hrow, hvalue]
    exact ⟨hbd, by omega, by omega⟩
  · intro row t ht hout
    rw [foldl_update_row, if_neg]
    rcases hout with hout | hout
    · have := Nat.mul_le_mul_right g.maxStreet (show row + 1 ≤ b by omega)
      rw [Nat.succ_mul] at this
      omega
    · have := Nat.mul_le_mul_right g.maxStreet hout
      rw [Nat.succ_mul] at this
      omega

theorem PredsAbove.step (hpred : PredsAbove g st predBds) (hst : st + 1 ≤ g.maxStreet) {b : Nat}
    (hlo : g.firstBelow st (st + 1) (predBds st) ≤ b) (hhi : b < g.firstBelow st (st + 1) (predBds st + 1)) :
    PredsAbove g (st + 1) (Function.update predBds (st + 1) b) := by
  have hlast : g.firstBelow st (st + 1) (predBds st + 1) ≤ (g.streetBoards (st + 1)).length :=
    firstBelow_le_length (by omega) (hpred st (le_refl st)).1
  have hbegin : g.firstBelow st g.maxStreet (predBds st) ≤ g.firstBelow (st + 1) g.maxStreet b := by
    rw [← firstBelow_firstBelow (show st ≤ st + 1 by omega) hst]
    exact firstBelow_mono hlo
  have hend : g.firstBelow (st + 1) g.maxStreet (b + 1) ≤ g.firstBelow st g.maxStreet (predBds st + 1) := by
    rw [← firstBelow_firstBelow (show st ≤ st + 1 by omega) hst (predBds st + 1)]
    exact firstBelow_mono hhi
  intro t ht
  rw [Function.update_self]
  by_cases hself : t = st + 1
  · rw [hself, Function.update_self]
    exact ⟨by omega, le_refl _, le_refl _⟩
  · obtain ⟨hbd, hfirst, hafter⟩ := hpred t (by omega)
    rw [Function.update_of_ne hself]
    exact ⟨hbd, hfirst.trans hbegin, hend.trans hafter⟩

/-- `BuildPredBoards` fills the rows of the final boards that begin with the board it stands at. -/
theorem predBoardsFrom_spec (h : g.Indexed tree) (hleft : st + 1 + left = g.maxStreet) (hpred : PredsAbove g st predBds)
    (table : Nat → Nat) :
    g.RowsFilled (g.firstBelow st g.maxStreet (predBds st)) (g.firstBelow st g.maxStreet (predBds st + 1)) table
      (tree.predBoardsFrom g.maxStreet left (st + 1) predBds table) := by
  have hbd := (hpred st (le_refl st)).1
  induction left generalizing st predBds table with
  | zero =>
    have hlast : g.firstBelow st (st + 1) (predBds st + 1) ≤ (g.streetBoards (st + 1)).length :=
      firstBelow_le_length (by omega) hbd
    have hst : st + 1 = g.maxStreet := by omega
    rw [PCardTree.predBoardsFrom]
    apply predBoards_loop h (by omega) hbd
    intro b table hlo hhi
    rw [← hst, firstBelow_self (by omega), firstBelow_self (by omega), hst]
    exact rowsFilled_row hst hpred hlo hhi table
  | succ left ih =>
    rw [PCardTree.predBoardsFrom]
    apply predBoards_loop h (by omega) hbd
    intro b table hlo hhi
    have hnext := hpred.step (by omega) hlo hhi
    have hrows := ih (by omega) hnext table (hnext (st + 1) (le_refl _)).1
    rw [Function.update_self] at hrows
    exact hrows

/-- Every final board has its row. -/
theorem buildPredBoards_spec (h : g.Indexed tree) (hmax : 0 < g.maxStreet) (memory : Nat → Nat) :
    ∀ row < (g.streetBoards g.maxStreet).length, g.RowFilled (tree.buildPredBoards g.maxStreet memory) row := by
  have hpred : PredsAbove g 0 fun _ => 0 := by
    intro t ht
    have hzero : t = 0 := by omega
    rw [hzero]
    exact ⟨Nat.one_pos, le_refl _, le_refl _⟩
  have hrows := (predBoardsFrom_spec h (show 0 + 1 + (g.maxStreet - 1) = g.maxStreet by omega) hpred memory).1
  have hend : g.firstBelow 0 g.maxStreet (0 + 1) = (g.streetBoards g.maxStreet).length := firstBelow_length hmax.le
  intro row hrow
  rw [PCardTree.buildPredBoards, if_neg (by omega)]
  exact hrows row (Nat.zero_le row) (by rw [hend]; exact hrow)

end

end SGame

namespace PCardTree

/-- A board of a later street is in the range of a board. -/
def InRange (tree : PCardTree) (st nst bd b : Nat) : Prop := tree.succBegin st nst bd ≤ b ∧ b < tree.succEnd st nst bd

/-- The maps of a board tree fit together. -/
structure Consistent (g : SGame) (tree : PCardTree) : Prop where
  distinct : ∀ st ≤ g.maxStreet, ∀ bd < tree.numBoards st, ∀ bd' < tree.numBoards st,
    tree.boards st bd = tree.boards st bd' → bd = bd'
  first : ∀ st nst, st < nst → nst ≤ g.maxStreet → 0 < tree.numBoards st → tree.succBegin st nst 0 = 0
  ordered : ∀ st nst, st < nst → nst ≤ g.maxStreet → ∀ bd < tree.numBoards st,
    tree.succBegin st nst bd ≤ tree.succEnd st nst bd
  adjacent : ∀ st nst, st < nst → nst ≤ g.maxStreet → ∀ bd, bd + 1 < tree.numBoards st →
    tree.succEnd st nst bd = tree.succBegin st nst (bd + 1)
  last : ∀ st nst, st < nst → nst ≤ g.maxStreet → ∀ bd, bd + 1 = tree.numBoards st →
    tree.succEnd st nst bd = tree.numBoards nst
  covered : ∀ st nst, st < nst → nst ≤ g.maxStreet → ∀ b < tree.numBoards nst,
    ∃! bd, bd < tree.numBoards st ∧ tree.InRange st nst bd b
  own : ∀ st nst, st < nst → nst ≤ g.maxStreet → ∀ bd < tree.numBoards st, ∀ b < tree.numBoards nst,
    (tree.InRange st nst bd b ↔ (tree.boards nst b).take (g.numBoardCards st) = tree.boards st bd)
  indices : ∀ st nst, st < nst → nst ≤ g.maxStreet → ∀ bd < tree.numBoards st, ∀ b, tree.InRange st nst bd b →
    tree.globalIndex st bd nst (tree.localIndex st bd nst b) = b
  lookup : ∀ st ≤ g.maxStreet, ∀ bd < tree.numBoards st, tree.lookupBoard g (tree.boards st bd) st = some bd
  preds : ∀ memory, ∀ b < tree.numBoards g.maxStreet, ∀ st < g.maxStreet,
    predBoard g.maxStreet (tree.buildPredBoards g.maxStreet memory) b st < tree.numBoards st ∧
      tree.boards st (predBoard g.maxStreet (tree.buildPredBoards g.maxStreet memory) b st) =
        (tree.boards g.maxStreet b).take (g.numBoardCards st)

end PCardTree

namespace SGame

section

variable {g : SGame} {st nst bd b : Nat} {tree : PCardTree}

theorem Indexed.inRange_iff (h : g.Indexed tree) (hst : st < nst) (hmax : nst ≤ g.maxStreet)
    (hbd : bd < (g.streetBoards st).length) :
    tree.InRange st nst bd b ↔ g.firstBelow st nst bd ≤ b ∧ b < g.firstBelow st nst (bd + 1) := by
  obtain ⟨hbegin, hend⟩ := h.ranges st nst bd hst hmax hbd
  rw [PCardTree.InRange, hbegin, hend]

theorem Indexed.covered (h : g.Indexed tree) (hst : st < nst) (hmax : nst ≤ g.maxStreet)
    (hb : b < (g.streetBoards nst).length) :
    ∃! bd, bd < (g.streetBoards st).length ∧ tree.InRange st nst bd b := by
  rw [streetBoards_flatMap hst.le] at hb
  obtain ⟨bd, hbd, hlo, hhi⟩ := exists_offset hb
  refine ⟨bd, ⟨hbd, (h.inRange_iff hst hmax hbd).mpr ⟨hlo, hhi⟩⟩, ?_⟩
  rintro bd' ⟨hbd', hrange⟩
  obtain ⟨hlo', hhi'⟩ := (h.inRange_iff hst hmax hbd').mp hrange
  exact offset_unique hlo' hhi' hlo hhi

theorem globalIndex_localIndex (hst : st < nst) :
    tree.globalIndex st bd nst (tree.localIndex st bd nst b) = b := by
  have hne : nst ≠ st := by omega
  by_cases hroot : st = 0
  · simp [PCardTree.globalIndex, PCardTree.localIndex, hroot, show nst ≠ 0 by omega]
  · simp [PCardTree.globalIndex, PCardTree.localIndex, hne, hroot]

/-- A tree that lists the boards of every street with their ranges is consistent. -/
theorem Indexed.consistent (h : g.Indexed tree) (hg : g.Dealable) (hdeck : g.numCardsInDeck ≤ 52)
    (hcards : g.numBoardCards g.maxStreet ≤ 5) : tree.Consistent g := by
  refine ⟨?_, ?_, ?_, ?_, ?_, ?_, ?_, ?_, ?_, ?_⟩
  · intro st hst bd hbd bd' hbd' heq
    rw [h.numBoards st hst] at hbd hbd'
    exact h.board_inj hg hst hbd hbd' heq
  · intro st nst hst hmax hpos
    rw [h.numBoards st (by omega)] at hpos
    rw [(h.ranges st nst 0 hst hmax hpos).1]
    rfl
  · intro st nst hst hmax bd hbd
    rw [h.numBoards st (by omega)] at hbd
    obtain ⟨hbegin, hend⟩ := h.ranges st nst bd hst hmax hbd
    rw [hbegin, hend]
    exact firstBelow_mono (Nat.le_succ bd)
  · intro st nst hst hmax bd hbd
    rw [h.numBoards st (by omega)] at hbd
    rw [(h.ranges st nst bd hst hmax (by omega)).2, (h.ranges st nst (bd + 1) hst hmax hbd).1]
  · intro st nst hst hmax bd hbd
    rw [h.numBoards st (by omega)] at hbd
    rw [(h.ranges st nst bd hst hmax (by omega)).2, h.numBoards nst hmax, hbd, firstBelow_length hst.le]
  · intro st nst hst hmax b hb
    rw [h.numBoards nst hmax] at hb
    rw [h.numBoards st (by omega)]
    exact h.covered hst hmax hb
  · intro st nst hst hmax bd hbd b hb
    rw [h.numBoards st (by omega)] at hbd
    rw [h.numBoards nst hmax] at hb
    rw [h.inRange_iff hst hmax hbd]
    exact h.range_iff hg hst.le hmax hbd hb
  · intro st nst hst hmax bd _ b _
    exact globalIndex_localIndex hst
  · intro st hst bd hbd
    rw [h.numBoards st hst] at hbd
    exact h.lookupBoard hg hst hdeck hcards hbd
  · intro memory b hb st hst
    rw [h.numBoards _ (le_refl _)] at hb
    obtain ⟨hbd, hlo, hhi⟩ := buildPredBoards_spec h (by omega) memory b hb st hst
    rw [h.numBoards st hst.le]
    refine ⟨hbd, ?_⟩
    exact ((h.range_iff hg hst.le (le_refl _) hbd hb).mp ⟨hlo, hhi⟩).symm

/-- The board tree of a game of at most four suits whose streets add one to three cards: `Count` and
`Build` agree, and all its maps fit together. -/
theorem create_consistent (hsuits : g.numSuits ≤ 4) (hstreets : ∀ n ∈ g.streetCards, 1 ≤ n ∧ n ≤ 3)
    (hcards : g.numBoardCards g.maxStreet ≤ 5) (hdeck : g.numCardsInDeck ≤ 52) :
    ∃ num T tree, (g.count g.maxStreet 1 [] noGroups fun st => if st = 0 then 1 else 0) = some num ∧
      g.build g.maxStreet 1 [] noGroups emptyTables = some T ∧
      (∀ st, 0 < st → st ≤ g.maxStreet → T.bds st = num st) ∧
      g.create = some tree ∧ tree.numBoards = num ∧ tree.Consistent g := by
  have hg : g.Dealable := by
    refine ⟨hsuits, ?_⟩
    intro n hn
    have := hstreets n hn
    omega
  obtain ⟨num, T, tree, hcount, hbuild, hbds, hcreate, hnum, hindexed⟩ := create_indexed hg
  exact ⟨num, T, tree, hcount, hbuild, hbds, hcreate, hnum, hindexed.consistent hg hdeck hcards⟩

/-- Two ranks of two suits and two streets of one card. -/
def fourCards : SGame := ⟨2, 2, 1, [1, 1], by decide, by decide⟩

theorem fourCards_consistent :
    ∃ num T tree, (fourCards.count 2 1 [] noGroups fun st => if st = 0 then 1 else 0) = some num ∧
      fourCards.build 2 1 [] noGroups emptyTables = some T ∧
      (∀ st, 0 < st → st ≤ 2 → T.bds st = num st) ∧
      fourCards.create = some tree ∧ tree.numBoards = num ∧ tree.Consistent fourCards :=
  create_consistent (g := fourCards) (by decide) (by decide) (by decide) (by decide)

/-- Two ranks of five suits. -/
def fiveSuits : SGame := ⟨2, 5, 1, [1], by decide, by decide⟩

/-- A street that adds no card. -/
def emptyStreet : SGame := ⟨2, 2, 1, [0], by decide, by decide⟩

/-- With a fifth suit the program leaves its arrays, and with a street without a card it exits. -/
theorem no_tree_of_five_suits :
    (fiveSuits.numBoardCards fiveSuits.maxStreet ≤ 5 ∧ (∀ n ∈ fiveSuits.streetCards, n ≤ 3) ∧
        fiveSuits.numCardsInDeck ≤ 52 ∧ ¬∃ tree, fiveSuits.create = some tree ∧ tree.Consistent fiveSuits) ∧
      emptyStreet.numBoardCards emptyStreet.maxStreet ≤ 5 ∧ (∀ n ∈ emptyStreet.streetCards, n ≤ 3) ∧
        emptyStreet.numCardsInDeck ≤ 52 ∧ ¬∃ tree, emptyStreet.create = some tree ∧ tree.Consistent emptyStreet := by
  have hfive : fiveSuits.create = none := rfl
  have hempty : emptyStreet.create = none := rfl
  refine ⟨⟨by decide, by decide, by decide, ?_⟩, by decide, by decide, by decide, ?_⟩
  · rintro ⟨tree, htree, -⟩
    rw [hfive] at htree
    cases htree
  · rintro ⟨tree, htree, -⟩
    rw [hempty] at htree
    cases htree

end

end SGame

end MasterAI
