import MasterAI.BoardVariants

namespace MasterAI

namespace PCardTree

variable (g : SGame) (tree : PCardTree)

/-- One more raw board for the canonical board of a board; nothing where the program exits. -/
def countBoard (st : Nat) (board : List Nat) (boardCounts : Nat → Nat → Nat) : Option (Nat → Nat → Nat) :=
  (g.canonicalizeCards board none st).bind fun canon =>
    (tree.lookupBoard g canon.1 st).bind fun canonBd =>
      if canonBd ≥ tree.numBoards st then none
      else some (Function.update boardCounts st (Function.update (boardCounts st) canonBd (boardCounts st canonBd + 1)))

/-- `DealRawBoards` for a street, with the number of streets from it on. -/
def dealRawBoards : Nat → Nat → List Nat → (Nat → Nat → Nat) → Option (Nat → Nat → Nat)
  | 0, st, board, boardCounts =>
    if st > 1 then countBoard g tree (st - 1) board boardCounts else some boardCounts
  | left + 1, st, board, boardCounts =>
    (if st > 1 then countBoard g tree (st - 1) board boardCounts else some boardCounts).bind fun boardCounts =>
      let numStreetCards := g.numCardsForStreet st
      if numStreetCards = 1 ∨ numStreetCards = 2 ∨ numStreetCards = 3 then
        (fallingCards board numStreetCards g.numCardsInDeck).foldlM
          (fun boardCounts cards => dealRawBoards left (st + 1) (board ++ cards) boardCounts) boardCounts
      else none

/-- `BuildBoardCounts`; nothing where the program exits. -/
def buildBoardCounts : Option (Nat → Nat → Nat) :=
  (dealRawBoards g tree g.maxStreet 1 [] fun st bd => if st = 0 ∧ bd = 0 then 1 else 0).bind fun boardCounts =>
    if (List.range g.maxStreet).any fun st => (List.range (tree.numBoards (st + 1))).any fun bd =>
        boardCounts (st + 1) bd = 0 then none
    else some boardCounts

end PCardTree

namespace SGame

section

variable {g : SGame} {tree : PCardTree} {st t left bd : Nat} {board : List Nat} {boardCounts : Nat → Nat → Nat}

/-- The raw boards of a street that begin with a board. -/
def rawBelow (g : SGame) (t : Nat) (board : List Nat) (st : Nat) : List (List Nat) :=
  if t ≤ st then descend g.rawNext (st - t) t board else []

/-- How often a board of the tree is counted for the raw boards that begin with a board. -/
def hits (g : SGame) (tree : PCardTree) (t : Nat) (board : List Nat) (st bd : Nat) : Nat :=
  if st = 0 then 0
  else (g.rawBelow t board st).countP fun raw =>
    g.canonStreets (g.suitMapping raw none st) raw st = some (tree.boards st bd)

theorem hits_before (h : st < t) : g.hits tree t board st bd = 0 := by
  rw [hits, rawBelow, if_neg (show ¬t ≤ st by omega), List.countP_nil, ite_self]

theorem hits_self (ht : t ≠ 0) :
    g.hits tree t board t bd =
      if g.canonStreets (g.suitMapping board none t) board t = some (tree.boards t bd) then 1 else 0 := by
  rw [hits, if_neg ht, rawBelow, if_pos le_rfl, Nat.sub_self, descend, List.countP_singleton]
  simp only [decide_eq_true_eq]

theorem hits_after (h : t < st) :
    g.hits tree t board st bd = ((g.rawNext t board).map fun raw => g.hits tree (t + 1) raw st bd).sum := by
  obtain ⟨k, rfl⟩ := Nat.exists_eq_add_of_lt h
  have hst : ¬t + k + 1 = 0 := by omega
  simp only [hits, rawBelow, if_neg hst, if_pos (show t ≤ t + k + 1 by omega), if_pos (show t + 1 ≤ t + k + 1 by omega)]
  rw [show t + k + 1 - t = k + 1 by omega, show t + k + 1 - (t + 1) = k by omega, descend, List.countP_flatMap]
  rfl

/-- A raw board is counted for the one board that it is canonicalized to. -/
theorem countBoard_spec (hg : g.Playable) (htree : g.Indexed tree) (hst : st ≤ g.maxStreet) (hpos : st ≠ 0)
    (h : g.RawBoard st board) (boardCounts : Nat → Nat → Nat) :
    ∃ boardCounts', tree.countBoard g st board boardCounts = some boardCounts' ∧
      (∀ s ≠ st, boardCounts' s = boardCounts s) ∧
      ∀ bd < tree.numBoards st, boardCounts' st bd = boardCounts st bd + g.hits tree st board st bd := by
  have hraw := h.rawCards
  obtain ⟨canon, sg, hcanon, hmem, _⟩ := canonStreets_listed hg hraw hst le_rfl
  obtain ⟨canonBd, hlt, hget⟩ := List.getElem_of_mem hmem
  have hnode := htree.nodes st hst canonBd hlt
  rw [List.getElem?_eq_getElem hlt, hget, Option.some.injEq, Prod.mk.injEq] at hnode
  have hresult : g.canonicalizeCards board none st = some (canon, none) := by
    rw [canonicalizeCards, hcanon, Option.bind_some]
  have hlookup := htree.lookupBoard hg.toDealable hst hg.deck hg.boardCards hlt
  rw [← hnode.1] at hlookup
  refine ⟨Function.update boardCounts st (Function.update (boardCounts st) canonBd (boardCounts st canonBd + 1)), ?_, ?_, ?_⟩
  · rw [PCardTree.countBoard, hresult, Option.bind_some, hlookup, Option.bind_some,
      if_neg (by rw [htree.numBoards st hst]; omega)]
  · exact fun s hs => Function.update_of_ne hs _ _
  · intro bd hbd
    rw [htree.numBoards st hst] at hbd
    rw [Function.update_self, hits_self hpos, hcanon]
    by_cases heq : bd = canonBd
    · rw [heq, Function.update_self, if_pos (congrArg some hnode.1)]
    · rw [Function.update_of_ne heq, if_neg fun hboard =>
        heq (htree.board_inj hg.toDealable hst hbd hlt ((Option.some.inj hboard).symm.trans hnode.1)), Nat.add_zero]

/-- A loop whose steps add to the counts adds what they add together. -/
theorem foldlM_adds {α : Type} {f : (Nat → Nat → Nat) → α → Option (Nat → Nat → Nat)} {num : α → Nat → Nat → Nat}
    {P : Nat → Nat → Prop} {l : List α}
    (h : ∀ x ∈ l, ∀ c, ∃ c', f c x = some c' ∧ ∀ s bd, P s bd → c' s bd = c s bd + num x s bd) (c : Nat → Nat → Nat) :
    ∃ c', l.foldlM f c = some c' ∧ ∀ s bd, P s bd → c' s bd = c s bd + (l.map fun x => num x s bd).sum := by
  induction l generalizing c with
  | nil => exact ⟨c, rfl, fun _ _ _ => rfl⟩
  | cons x l ih =>
    obtain ⟨c₁, hc₁, hadd₁⟩ := h x (by simp) c
    obtain ⟨c', hc', hadd⟩ := ih (fun y hy => h y (List.mem_cons_of_mem _ hy)) c₁
    refine ⟨c', ?_, fun s bd hP => ?_⟩
    · rw [List.foldlM_cons, hc₁]
      exact hc'
    · rw [hadd s bd hP, hadd₁ s bd hP, List.map_cons, List.sum_cons, Nat.add_assoc]

/-- What is done for a board before the cards of the next street are dealt. -/
theorem countBefore_spec (hg : g.Playable) (htree : g.Indexed tree) (ht : t ≤ g.maxStreet) (h : g.RawBoard t board)
    (boardCounts : Nat → Nat → Nat) :
    ∃ boardCounts', (if t + 1 > 1 then tree.countBoard g (t + 1 - 1) board boardCounts else some boardCounts) =
      some boardCounts' ∧ ∀ st bd, st ≤ g.maxStreet ∧ bd < tree.numBoards st →
        boardCounts' st bd = boardCounts st bd + if st = t then g.hits tree t board st bd else 0 := by
  by_cases hzero : t = 0
  · refine ⟨boardCounts, if_neg (by omega), fun st bd _ => ?_⟩
    split
    next hst => rw [hits, if_pos (hst.trans hzero), Nat.add_zero]
    next => rfl
  · obtain ⟨boardCounts', hcounts, hothers, hsame⟩ := countBoard_spec hg htree ht hzero h boardCounts
    refine ⟨boardCounts', by rw [if_pos (by omega), Nat.add_sub_cancel, hcounts], fun st bd hbd => ?_⟩
    split
    next hst =>
      subst hst
      exact hsame bd hbd.2
    next hst => rw [hothers st hst, Nat.add_zero]

/-- `DealRawBoards` counts every raw board that begins with a board. -/
theorem dealRawBoards_spec (hg : g.Playable) (htree : g.Indexed tree) (hleft : t + left = g.maxStreet)
    (h : g.RawBoard t board) (boardCounts : Nat → Nat → Nat) :
    ∃ boardCounts', tree.dealRawBoards g left (t + 1) board boardCounts = some boardCounts' ∧
      ∀ st bd, st ≤ g.maxStreet ∧ bd < tree.numBoards st →
        boardCounts' st bd = boardCounts st bd + g.hits tree t board st bd := by
  induction left generalizing t board boardCounts with
  | zero =>
    obtain ⟨counts₁, hcounts₁, hadd₁⟩ := countBefore_spec hg htree (by omega) h boardCounts
    refine ⟨counts₁, by rw [PCardTree.dealRawBoards, hcounts₁], fun st bd hbd => ?_⟩
    rw [hadd₁ st bd hbd]
    split
    next => rfl
    next hst => rw [hits_before (by omega)]
  | succ left ih =>
    obtain ⟨counts₁, hcounts₁, hadd₁⟩ := countBefore_spec hg htree (by omega) h boardCounts
    have ht : t < g.maxStreet := by omega
    obtain ⟨counts', hcounts', hadd⟩ := foldlM_adds
      (f := fun boardCounts cards => tree.dealRawBoards g left (t + 1 + 1) (board ++ cards) boardCounts)
      (l := fallingCards board (g.numCardsForStreet (t + 1)) g.numCardsInDeck)
      (fun cards hcards c => ih (by omega) ((h.append_iff ht).mpr hcards) c) counts₁
    refine ⟨counts', ?_, fun st bd hbd => ?_⟩
    · rw [PCardTree.dealRawBoards, hcounts₁, Option.bind_some]
      dsimp only
      rw [if_pos (hg.street ht)]
      exact hcounts'
    · rw [hadd st bd hbd, hadd₁ st bd hbd, Nat.add_assoc]
      refine congrArg _ ?_
      rcases Nat.lt_trichotomy st t with hlt | heq | hgt
      · have hzero : ∀ cards, g.hits tree (t + 1) (board ++ cards) st bd = 0 := fun cards => hits_before (by omega)
        rw [if_neg (by omega), hits_before hlt]
        simp [hzero]
      · have hzero : ∀ cards, g.hits tree (t + 1) (board ++ cards) st bd = 0 := fun cards => hits_before (by omega)
        rw [if_pos heq]
        simp [hzero]
      · rw [if_neg (by omega), Nat.zero_add, hits_after hgt, rawNext, List.map_map]
        rfl

/-- `BuildBoardCounts` comes through, with the product of the variants for every board. -/
theorem buildBoardCounts_spec (hg : g.Playable) (hindexed : g.Indexed tree) :
    ∃ boardCounts, tree.buildBoardCounts g = some boardCounts ∧ ∀ st ≤ g.maxStreet, ∀ bd < tree.numBoards st,
      boardCounts st bd = ∏ t ∈ Finset.range st, g.boardVariants (tree.boards st bd) t := by
  obtain ⟨boardCounts, hcounts, hadd⟩ := dealRawBoards_spec hg hindexed (Nat.zero_add _) RawBoard.root
    fun st bd => if st = 0 ∧ bd = 0 then 1 else 0
  have hprod : ∀ st ≤ g.maxStreet, ∀ bd < tree.numBoards st,
      boardCounts st bd = ∏ t ∈ Finset.range st, g.boardVariants (tree.boards st bd) t := by
    intro st hst bd hbd
    rw [hadd st bd ⟨hst, hbd⟩]
    rw [hindexed.numBoards st hst] at hbd
    by_cases hzero : st = 0
    · subst hzero
      have hone : bd = 0 := by simpa [streetBoards, descend] using hbd
      rw [hits, if_pos rfl, if_pos ⟨rfl, hone⟩]
      rfl
    · rw [if_neg fun hboth => hzero hboth.1, Nat.zero_add, hits, if_neg hzero, rawBelow, if_pos (Nat.zero_le st)]
      exact countP_eq_prod hg hst (hindexed.mem hst hbd)
  refine ⟨boardCounts, ?_, hprod⟩
  rw [PCardTree.buildBoardCounts, hcounts, Option.bind_some, if_neg]
  simp only [List.any_eq_true, List.mem_range, decide_eq_true_eq, not_exists, not_and]
  intro st hst bd hbd hzero
  rw [hprod (st + 1) (by omega) bd hbd] at hzero
  rw [hindexed.numBoards (st + 1) (by omega)] at hbd
  have hmem := hindexed.mem (show st + 1 ≤ g.maxStreet by omega) hbd
  have horder := prod_boardVariants hg.toDealable (by omega) hmem
  rw [hzero, Nat.zero_mul] at horder
  exact absurd horder.symm (groupOrder_pos (noGroups_valid g.numSuits)).ne'

/-- The boards that a listed board goes through, and its variants among theirs. -/
theorem exists_path (hg : g.Dealable) (h : g.Indexed tree) (hst : st ≤ g.maxStreet) (hbd : bd < tree.numBoards st) :
    ∃ path : Nat → Nat, path st = bd ∧ ∀ t ≤ st, path t < tree.numBoards t ∧
      tree.boards t (path t) = (tree.boards st bd).take (g.numBoardCards t) := by
  have hbelow : ∀ t, ∃ bd', t ≤ st → bd' < tree.numBoards t ∧
      tree.boards t bd' = (tree.boards st bd).take (g.numBoardCards t) := by
    intro t
    by_cases ht : t ≤ st
    · rw [h.numBoards st hst] at hbd
      have hlisted := hbd
      rw [streetBoards_flatMap ht] at hlisted
      obtain ⟨bd', hbd', hlo, hhi⟩ := exists_offset hlisted
      refine ⟨bd', fun _ => ⟨by rwa [h.numBoards t (by omega)], ?_⟩⟩
      exact ((h.range_iff hg ht hst hbd' hbd).mp ⟨hlo, hhi⟩).symm
    · exact ⟨0, fun hle => absurd hle ht⟩
  choose path hpath using hbelow
  refine ⟨path, ?_, hpath⟩
  obtain ⟨hlt, hboard⟩ := hpath st le_rfl
  rw [h.numBoards st hst] at hlt hbd
  rw [← (h.valid hg hst hbd).length, List.take_length] at hboard
  exact h.board_inj hg hst hlt hbd hboard

/-- A board has the variants of the boards that it goes through. -/
theorem boardVariants_take {k : Nat} (hst : st ≤ g.maxStreet) (hk : t < k) (hkst : k ≤ st)
    (hboard : board.length = g.numBoardCards st) :
    g.boardVariants (board.take (g.numBoardCards k)) t = g.boardVariants board t := by
  have hle := numBoardCards_mono (g := g) hkst
  have hlength : (board.take (g.numBoardCards k)).length = g.numBoardCards k :=
    List.length_take_of_le (by omega)
  have hwhole : g.boardVariants (board.take (g.numBoardCards k) ++ board.drop (g.numBoardCards k)) t =
      g.boardVariants (board.take (g.numBoardCards k)) t := boardVariants_append hlength (by omega) hk
  rw [← hwhole, List.take_append_drop]

/-- The raw boards counted for a board are the product of the variants along its path. -/
theorem buildBoardCounts_path (hg : g.Playable) :
    ∃ tree boardCounts, g.create = some tree ∧ tree.buildBoardCounts g = some boardCounts ∧
      ∀ st ≤ g.maxStreet, ∀ bd < tree.numBoards st, ∃ path : Nat → Nat, path st = bd ∧
        (∀ t ≤ st, path t < tree.numBoards t ∧ tree.boards t (path t) = (tree.boards st bd).take (g.numBoardCards t)) ∧
        boardCounts st bd = ∏ t ∈ Finset.range st, tree.variants (t + 1) (path (t + 1)) := by
  obtain ⟨_, _, tree, _, _, _, htree, _, hindexed⟩ := create_indexed hg.toDealable
  obtain ⟨boardCounts, hcounts, hprod⟩ := buildBoardCounts_spec hg hindexed
  refine ⟨tree, boardCounts, htree, hcounts, fun st hst bd hbd => ?_⟩
  obtain ⟨path, hlast, hpath⟩ := exists_path hg.toDealable hindexed hst hbd
  refine ⟨path, hlast, hpath, ?_⟩
  rw [hprod st hst bd hbd]
  refine Finset.prod_congr rfl fun t ht => ?_
  have hts := Finset.mem_range.mp ht
  obtain ⟨hlt, hboard⟩ := hpath (t + 1) (by omega)
  rw [hindexed.numBoards st hst] at hbd
  rw [create_variants hg.toDealable htree t (by omega) _ hlt, hboard,
    boardVariants_take hst (Nat.lt_succ_self t) (by omega) (hindexed.valid hg.toDealable hst hbd).length]

/-- `NumMappings` counts the images of a set of cards at the one that stands for them. -/
theorem numMappings_orbits (hg : g.Playable) :
    (∀ streets sg, g.DealtStreets streets sg → ∀ n, n = 1 ∨ n = 2 ∨ n = 3 →
      (∀ cards ∈ fallingCards streets.flatten n g.numCardsInDeck,
        (∃ m, g.numMappings cards sg = some m ∧ (m = 0 ∨ m = (g.imagesUnder (g.FixesStreets streets) cards).ncard)) ∧
        ∃! other, other ∈ g.imagesUnder (g.FixesStreets streets) cards ∧ ∃ m, g.numMappings other sg = some m ∧ 0 < m) ∧
      ∃ entries, g.typicalCards n streets.flatten sg = some entries ∧
        (entries.map TypicalEntry.numVariants).sum = entries.length) ∧
    ∃ tree boardCounts, g.create = some tree ∧ tree.buildBoardCounts g = some boardCounts ∧
      ∀ st ≤ g.maxStreet, ∀ bd < tree.numBoards st, ∃ path : Nat → Nat, path st = bd ∧
        (∀ t ≤ st, path t < tree.numBoards t ∧ tree.boards t (path t) = (tree.boards st bd).take (g.numBoardCards t)) ∧
        boardCounts st bd = ∏ t ∈ Finset.range st, tree.variants (t + 1) (path (t + 1)) := by
  refine ⟨fun streets sg hdealt n hn => ⟨fun cards hcards => ?_, hdealt.sum_numVariants hg.suits hn⟩,
    buildBoardCounts_path hg⟩
  have hvalid := hdealt.valid hg.suits
  have hfall := (mem_fallingCards.mp hcards).2.1
  rw [hdealt.images_eq hg.suits]
  obtain ⟨m, hm, _⟩ := numMappings_spec hg.suits hvalid hfall
  refine ⟨⟨m, hm, ?_⟩, existsUnique_canonical hg.suits hvalid cards⟩
  rw [or_iff_not_imp_left]
  exact numMappings_ncard hg.suits hvalid hfall hm

/-- The deuce of spades and the deuce of hearts on a flop of clubs and a diamond: one turn card stands for both. -/
theorem numMappings_orbits_holdem :
    (∃ m, holdem.numMappings [2] suitedFlopGroups = some m ∧
      (m = 0 ∨ m = (holdem.imagesUnder (holdem.FixesStreets [suitedFlop]) [2]).ncard)) ∧
    (∃! other, other ∈ holdem.imagesUnder (holdem.FixesStreets [suitedFlop]) [3] ∧
      ∃ m, holdem.numMappings other suitedFlopGroups = some m ∧ 0 < m) ∧
    (∃ entries, holdem.typicalCards 1 suitedFlop suitedFlopGroups = some entries ∧
      (entries.map TypicalEntry.numVariants).sum = entries.length) ∧
    ∃ tree boardCounts, holdem.create = some tree ∧ tree.buildBoardCounts holdem = some boardCounts ∧
      ∀ st ≤ 3, ∀ bd < tree.numBoards st, ∃ path : Nat → Nat, path st = bd ∧
        (∀ t ≤ st, path t < tree.numBoards t ∧
          tree.boards t (path t) = (tree.boards st bd).take (holdem.numBoardCards t)) ∧
        boardCounts st bd = ∏ t ∈ Finset.range st, tree.variants (t + 1) (path (t + 1)) := by
  obtain ⟨horbits, hcounts⟩ := numMappings_orbits holdem_playable
  obtain ⟨hcards, hsum⟩ := horbits [suitedFlop] suitedFlopGroups dealtStreets_suitedFlop 1 (by decide)
  have hspade : [3] ∈ fallingCards [suitedFlop].flatten 1 holdem.numCardsInDeck := mem_fallingCards.mpr (by decide)
  have hheart : [2] ∈ fallingCards [suitedFlop].flatten 1 holdem.numCardsInDeck := mem_fallingCards.mpr (by decide)
  exact ⟨(hcards [2] hheart).1, (hcards [3] hspade).2, hsum, hcounts⟩

end

end SGame

end MasterAI
