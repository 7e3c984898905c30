import MasterAI.HandValueTreeQueries

namespace MasterAI

namespace HandValueTree

/-- The card at hand of an array of some cards, and -1 behind its last; nothing outside the memory of the array. -/
def cardAt (cards : List Nat) (count i : Nat) : Option Int :=
  if i < count then (cards[i]?).map Int.ofNat else some (-1)

/-- The loop of `Val` of a board and hole cards from two places on, into the rounds that are left of the array `a`. -/
def mergeLoop (board holeCards : List Nat) (boardCount : Nat) : Nat → Nat → Nat → Option (List Int)
  | 0, i, j => if i < boardCount ∨ j < 2 then none else some []
  | rounds + 1, i, j =>
    if i < boardCount ∨ j < 2 then
      (cardAt board boardCount i).bind fun b => (cardAt holeCards 2 j).bind fun h =>
        if b > h then (mergeLoop board holeCards boardCount rounds (i + 1) j).map fun a => b :: a
        else (mergeLoop board holeCards boardCount rounds i (j + 1)).map fun a => h :: a
    else some []

/-- The entry at signed indices. -/
def entryAt (s : HandValueTree) (a : List Int) : Option Int :=
  if ∀ c ∈ a, 0 ≤ c then s.treeEntry (a.map Int.toNat) else none

/-- `Val` of a board and hole cards with its loops; nothing where the program exits or leaves an array. -/
def valMerged (s : HandValueTree) (board holeCards : List Nat) : Option Int :=
  if s.numCards = 1 then (holeCards[0]?).bind fun h => s.treeEntry [h]
  else if s.numCards = 2 ∧ s.numBoardCards = 1 then
    (board[0]?).bind fun b => (holeCards[0]?).bind fun h => if b < h then s.treeEntry [h, b] else s.treeEntry [b, h]
  else if s.numCards = 2 ∧ s.numBoardCards = 0 then
    (holeCards[0]?).bind fun h0 => (holeCards[1]?).bind fun h1 =>
      if h0 < h1 then s.treeEntry [h1, h0] else s.treeEntry [h0, h1]
  else if 3 ≤ s.numCards ∧ s.numCards ≤ 7 then
    (mergeLoop board holeCards (s.numCards.toNat - 2) s.numCards.toNat 0 0).bind s.entryAt
  else none

section

variable {s : HandValueTree} {board holeCards cards t : List Nat} {count rounds i j : Nat}

theorem cardAt_lt (hi : i < count) (hcount : count ≤ cards.length) :
    ∃ (c : Nat) (rest : List Nat), cardAt cards count i = some (c : Int) ∧ (cards.take count).drop i = c :: rest ∧
      (cards.take count).drop (i + 1) = rest := by
  have hlt : i < (cards.take count).length := by
    rw [List.length_take]
    omega
  have hget : cards[i]? = some (cards.take count)[i] := by
    rw [List.getElem_take, List.getElem?_eq_getElem (by omega)]
  refine ⟨_, _, ?_, List.drop_eq_getElem_cons hlt, rfl⟩
  rw [cardAt, if_pos hi, hget]
  rfl

theorem cardAt_ge (hi : ¬i < count) : cardAt cards count i = some (-1) ∧ (cards.take count).drop i = [] := by
  refine ⟨if_neg hi, List.drop_eq_nil_of_le ?_⟩
  rw [List.length_take]
  omega

/-- The loop merges what is left of both arrays, one card in each round. -/
theorem mergeLoop_eq (hboard : count ≤ board.length) (hhole : 2 ≤ holeCards.length)
    (hrounds : rounds = (count - i) + (2 - j)) :
    mergeLoop board holeCards count rounds i j =
      some ((((board.take count).drop i).merge ((holeCards.take 2).drop j) fun b h => decide (b > h)).map Int.ofNat) := by
  induction rounds generalizing i j with
  | zero =>
    have hnoBoard : (board.take count).drop i = [] := (cardAt_ge (by omega)).2
    have hnoHole : (holeCards.take 2).drop j = [] := (cardAt_ge (by omega)).2
    rw [mergeLoop, if_neg (by omega), hnoBoard, hnoHole, List.nil_merge]
    rfl
  | succ rounds ih =>
    rw [mergeLoop, if_pos (by omega)]
    by_cases hi : i < count
    · obtain ⟨b, bs, hb, hdropBoard, hnextBoard⟩ := cardAt_lt hi hboard
      by_cases hj : j < 2
      · obtain ⟨h, hs, hh, hdropHole, hnextHole⟩ := cardAt_lt hj hhole
        rw [hb, hh, Option.bind_some, Option.bind_some, hdropBoard, hdropHole]
        by_cases hlt : b > h
        · rw [if_pos (by exact_mod_cast hlt), ih (by omega), hnextBoard, hdropHole,
            List.cons_merge_cons_pos _ _ _ (decide_eq_true hlt)]
          rfl
        · rw [if_neg (by exact_mod_cast hlt), ih (by omega), hnextHole, hdropBoard,
            List.cons_merge_cons_neg _ _ _ (by simpa using hlt)]
          rfl
      · -- the hole cards are used up, and every board card beats the -1 behind them
        obtain ⟨hh, hdropHole⟩ := @cardAt_ge holeCards 2 j hj
        rw [hb, hh, Option.bind_some, Option.bind_some, if_pos (by omega), ih (by omega), hnextBoard, hdropHole,
          hdropBoard, List.merge_right, List.merge_right]
        rfl
    · have hj : j < 2 := by omega
      obtain ⟨hb, hdropBoard⟩ := @cardAt_ge board count i hi
      obtain ⟨h, hs, hh, hdropHole, hnextHole⟩ := cardAt_lt hj hhole
      rw [hb, hh, Option.bind_some, Option.bind_some, if_neg (by omega), ih (by omega), hnextHole, hdropBoard, hdropHole,
        List.nil_merge, List.nil_merge]
      rfl

theorem entryAt_ofNat (t : List Nat) : s.entryAt (t.map Int.ofNat) = s.treeEntry t := by
  have hpos : ∀ c ∈ t.map Int.ofNat, 0 ≤ c := by
    intro c hc
    obtain ⟨n, -, rfl⟩ := List.mem_map.mp hc
    exact Int.natCast_nonneg n
  rw [entryAt, if_pos hpos, List.map_map]
  congr 1
  exact List.map_id t

/-- The loops compute the merged hand. -/
theorem valMerged_eq (hboard : s.numCards.toNat - 2 ≤ board.length) (hhole : 2 ≤ holeCards.length) :
    s.valMerged board holeCards = s.valOfBoard board holeCards := by
  have hlong : s.numCards.toNat - 2 ≤ board.length ∧ 2 ≤ holeCards.length := ⟨hboard, hhole⟩
  unfold valMerged valOfBoard
  by_cases hmany : 3 ≤ s.numCards ∧ s.numCards ≤ 7
  · rw [if_pos hmany, if_pos hmany, mergeLoop_eq hboard hhole (by omega), mergeCards, if_pos hlong]
    simp only [List.drop_zero, Option.bind_some, entryAt_ofNat]
  · rw [if_neg hmany, if_neg hmany]

theorem val_falling (hfalls : t.Pairwise (· > ·)) (hcards : cards.Perm t) (hcount : s.numCards = t.length)
    (hpos : 1 ≤ t.length) : s.val cards = s.treeEntry t := by
  have hsort : cards.insertionSort (· ≥ ·) = t :=
    ((cards.perm_insertionSort (· ≥ ·)).trans hcards).eq_of_pairwise' (cards.pairwise_insertionSort (· ≥ ·))
      (hfalls.imp Nat.le_of_lt)
  have hlength := hcards.length_eq
  unfold val
  by_cases hseven : t.length ≤ 7
  · rw [if_pos (by omega), sortedCards, if_pos (by omega), List.take_of_length_le (by omega), hsort]
    rfl
  · rw [if_neg (by omega)]
    unfold treeEntry
    split <;> first | omega | rfl

/-- A board and two hole cards, both sorted from high to low, are looked up under the sorted hand, as `Val` of all
the cards looks them up in any order. -/
theorem valMerged_descends (s : HandValueTree) (hboard : board.Pairwise (· > ·)) (hhole : holeCards.Pairwise (· > ·))
    (hdisjoint : ∀ b ∈ board, b ∉ holeCards) (htwo : holeCards.length = 2) (hcount : s.numCards = board.length + 2)
    (hnone : board = [] → s.numBoardCards = 0) :
    ∃ t, t.Pairwise (· > ·) ∧ t.Perm (board ++ holeCards) ∧ s.valMerged board holeCards = s.treeEntry t ∧
      ∀ cards, cards.Perm (board ++ holeCards) → s.val cards = s.treeEntry t := by
  have hfalls := merge_falling hboard hhole hdisjoint
  have hperm : (board.merge holeCards fun b h => decide (b > h)).Perm (board ++ holeCards) := List.merge_perm_append _
  have hlength := hperm.length_eq
  rw [List.length_append, htwo] at hlength
  refine ⟨board.merge holeCards fun b h => decide (b > h), hfalls, hperm, ?_, ?_⟩
  · rw [valMerged_eq (by omega) htwo.ge]
    cases board with
    | nil =>
      obtain ⟨h0, h1, rfl⟩ := List.length_eq_two.mp htwo
      have hlt : h1 < h0 := (List.pairwise_cons.mp hhole).1 h1 (by simp)
      have hnum : s.numCards = 2 := hcount
      have hzero := hnone rfl
      rw [valOfBoard, if_neg (by omega), if_neg (by omega), if_pos ⟨hnum, hzero⟩, List.nil_merge]
      simp [Nat.not_lt_of_lt hlt]
    | cons b board =>
      rw [List.length_cons] at hcount hlength
      push_cast at hcount
      rw [valOfBoard, if_neg (by omega), if_neg (by omega), if_neg (by omega)]
      by_cases hseven : s.numCards ≤ 7
      · have hall : s.numCards.toNat - 2 = (b :: board).length := by
          rw [List.length_cons]
          omega
        rw [if_pos (by omega), mergeCards, hall, if_pos ⟨le_rfl, htwo.ge⟩, List.take_length,
          List.take_of_length_le htwo.le]
        rfl
      · rw [if_neg (by omega)]
        unfold treeEntry
        split <;> first | omega | rfl
  · intro cards hcards
    refine val_falling hfalls (hcards.trans hperm.symm) ?_ (by omega)
    rw [hcount, hlength]
    push_cast
    rfl

end

/-- Three cards are asked for, and one hand has a value. -/
def oneHand : HandValueTree :=
  let values : List (Option (List (Option (List (Option Int))))) := [none, none, some [none, some [some 5]]]
  { initial with numCards := 3, tree3 := some values }

/-- A board card between the hole cards. -/
theorem oneHand_descends : oneHand.valMerged [1] [2, 0] = some 5 ∧ oneHand.val [0, 1, 2] = some 5 := by
  obtain ⟨t, -, -, hboard, hcards⟩ := @valMerged_descends [1] [2, 0] oneHand (by decide) (by decide) (by decide) rfl rfl
    (by decide)
  have hvalue : oneHand.valMerged [1] [2, 0] = some 5 := by decide
  exact ⟨hvalue, (hcards [0, 1, 2] (by decide)).trans (hboard.symm.trans hvalue)⟩

end HandValueTree

end MasterAI
