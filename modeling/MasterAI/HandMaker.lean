import MasterAI.CanonicalCards
import MasterAI.HandEvaluator
import MasterAI.HandValueTreeQueries

namespace MasterAI

namespace HandMaker

def handVals : List Int :=
  [HoldemHandEvaluator.kNoPair, HoldemHandEvaluator.kPair, HoldemHandEvaluator.kTwoPair,
    HoldemHandEvaluator.kThreeOfAKind, HoldemHandEvaluator.kStraight, HoldemHandEvaluator.kFlush,
    HoldemHandEvaluator.kFullHouse, HoldemHandEvaluator.kQuads, HoldemHandEvaluator.kStraightFlush]

/-- The loop of `GetHandType` down from below an index. -/
def typeBelow (handVal : Int) : Nat → Int
  | 0 => -1
  | idx + 1 => if handVal > handVals.getD idx 0 then idx else typeBelow handVal idx

/-- `GetHandType`; nothing where the hand has no value. -/
def getHandType (trees : HandValueTree) (cards : List Nat) (cnt : Int) : Option Int :=
  if cnt < 5 ∨ cnt > 7 then some (-1)
  else (trees.valByCount cards cnt).1.map fun handVal => typeBelow handVal handVals.length

variable (g : SGame)

/-- No ranks in common is 0, a pair and another card is 1, three of a kind is 2. -/
def getFlopBoardType (rank0 rank1 rank2 : Nat) : Nat :=
  if rank0 ≠ rank1 ∧ rank1 ≠ rank2 ∧ rank0 ≠ rank2 then 0 else if rank0 = rank1 ∧ rank1 = rank2 then 2 else 1

/-- The first number below a bound that is not taken, or the bound. -/
def firstOther (bound : Nat) (taken : List Nat) : Nat := ((List.range bound).find? fun x => x ∉ taken).getD bound

/-- `MakeTopPairHand` on the flop. -/
def makeTopPairHand (c0 c1 c2 : Nat) : List Nat :=
  [c0, c1, c2, g.makeCard (g.rank c0) (firstOther g.numSuits [g.suit c0]),
    g.makeCard (firstOther g.numRanks [g.rank c2, g.rank c1, g.rank c0]) 0]

/-- What `FilterFlopLargeBetAction` asks of the sorted flop and the hole cards, none of which leaves a large bet in
place; nothing where a hand has no value. -/
def keepsLargeBet (trees : HandValueTree) (c0 c1 c2 : Nat) (hcpCards : List Nat) : Option Bool :=
  let boardType := getFlopBoardType (g.rank c0) (g.rank c1) (g.rank c2)
  let curCards := [c0, c1, c2] ++ hcpCards
  if boardType = 2 then some true
  else if boardType = 1 then (getHandType trees curCards 5).map fun handType => decide (handType < 3)
  else
    (trees.valByCount (makeTopPairHand g c0 c1 c2) 5).1.bind fun topPairVal =>
      (trees.valByCount curCards 5).1.map fun curVal => decide (curVal < topPairVal)

section

variable {g} {files : StaticFiles} {tables : HandValueTree.HandTables files g} {trees : HandValueTree} {bound : Nat}
  {taken cards hcpCards : List Nat} {c0 c1 c2 : Nat}

theorem firstOther_spec (h : taken.length < bound) : firstOther bound taken < bound ∧ firstOther bound taken ∉ taken := by
  unfold firstOther
  cases hfind : (List.range bound).find? fun x => x ∉ taken with
  | none =>
    have hsub : List.range bound ⊆ taken := fun x hx => by simpa using List.find?_eq_none.mp hfind x hx
    have hle := (List.subperm_of_subset List.nodup_range hsub).length_le
    rw [List.length_range] at hle
    omega
  | some x =>
    refine ⟨List.mem_range.mp (List.mem_of_find?_eq_some hfind), ?_⟩
    simpa using List.find?_some hfind

/-- Five different cards of the deck have a value once the tables are loaded. -/
theorem valByCount_five (hloaded : HandValueTree.Loaded tables trees) (hlength : cards.length = 5) (hnodup : cards.Nodup)
    (hdeck : ∀ c ∈ cards, c < g.numCardsInDeck) : ((trees.valByCount cards 5).1).isSome := by
  obtain ⟨t, hfalls, hperm⟩ := HandValueTree.exists_falling hnodup hdeck
  have hcount := hperm.length_eq
  have hsorted : HandValueTree.sortedCards cards 5 = some t := by
    rw [← hlength, hcount]
    exact HandValueTree.sortedCards_falling hfalls hperm
  have hentry := hloaded.entries t (by omega) (by omega) hfalls
  have hval : (trees.valByCount cards 5).1 = (HandValueTree.sortedCards cards 5).bind trees.treeEntry := rfl
  rw [hval, hsorted, Option.bind_some, hentry]
  rfl

/-- The hand with a pair of the highest card of the board consists of different cards of the deck. -/
theorem makeTopPairHand_cards (hsuits : 2 ≤ g.numSuits) (hranks : 4 ≤ g.numRanks)
    (hother : g.rank c0 ≠ g.rank c1 ∧ g.rank c1 ≠ g.rank c2 ∧ g.rank c0 ≠ g.rank c2)
    (hdeck : ∀ c ∈ [c0, c1, c2], c < g.numCardsInDeck) :
    (makeTopPairHand g c0 c1 c2).Nodup ∧ ∀ c ∈ makeTopPairHand g c0 c1 c2, c < g.numCardsInDeck := by
  obtain ⟨hsuit, hsuitOther⟩ := firstOther_spec (show [g.suit c0].length < g.numSuits by
    rw [List.length_singleton]
    omega)
  obtain ⟨hrank, hrankOther⟩ := firstOther_spec (show [g.rank c2, g.rank c1, g.rank c0].length < g.numRanks by
    simp only [List.length_cons, List.length_nil]
    omega)
  have hhigh := SGame.rank_makeCard (r := g.rank c0) hsuit
  have hhighSuit := SGame.suit_makeCard (r := g.rank c0) hsuit
  have hlow := SGame.rank_makeCard (r := firstOther g.numRanks [g.rank c2, g.rank c1, g.rank c0]) g.suits_pos
  have hhighLt := SGame.makeCard_lt (SGame.rank_lt (hdeck c0 (by simp))) hsuit
  have hlowLt := SGame.makeCard_lt hrank g.suits_pos
  unfold makeTopPairHand
  generalize g.makeCard (g.rank c0) (firstOther g.numSuits [g.suit c0]) = high at *
  generalize g.makeCard (firstOther g.numRanks [g.rank c2, g.rank c1, g.rank c0]) 0 = low at *
  rw [← hhighSuit, List.mem_singleton] at hsuitOther
  rw [← hlow] at hrankOther
  simp only [List.mem_cons, List.not_mem_nil, or_false, not_or] at hrankOther
  obtain ⟨h01, h12, h02⟩ := hother
  refine ⟨?_, ?_⟩
  · simp only [List.nodup_cons, List.mem_cons, List.not_mem_nil, or_false, not_or, not_false_eq_true, List.nodup_nil,
      and_true]
    have hsame : ∀ {c d : Nat}, c = d → g.rank c = g.rank d := congrArg g.rank
    refine ⟨⟨fun h => h01 (hsame h), fun h => h02 (hsame h), fun h => hsuitOther (congrArg g.suit h).symm,
      fun h => hrankOther.2.2 (hsame h).symm⟩, ⟨fun h => h12 (hsame h), fun h => h01 ((hsame h).trans hhigh).symm,
      fun h => hrankOther.2.1 (hsame h).symm⟩, ⟨fun h => h02 ((hsame h).trans hhigh).symm,
      fun h => hrankOther.1 (hsame h).symm⟩, fun h => hrankOther.2.2 ((hsame h).symm.trans hhigh)⟩
  · simp only [List.mem_cons, List.not_mem_nil, or_false] at hdeck ⊢
    rintro c (rfl | rfl | rfl | rfl | rfl)
    · exact hdeck c (by simp)
    · exact hdeck c (by simp)
    · exact hdeck c (by simp)
    · exact hhighLt
    · exact hlowLt

/-- Once the tables are loaded, the test of a flop and the hole cards has an outcome. -/
theorem keepsLargeBet_isSome (hloaded : HandValueTree.Loaded tables trees) (hsuits : 2 ≤ g.numSuits) (hranks : 4 ≤ g.numRanks)
    (hhole : hcpCards.length = 2) (hnodup : ([c0, c1, c2] ++ hcpCards).Nodup)
    (hdeck : ∀ c ∈ [c0, c1, c2] ++ hcpCards, c < g.numCardsInDeck) :
    (keepsLargeBet g trees c0 c1 c2 hcpCards).isSome := by
  have hcur := valByCount_five hloaded (by simp [hhole]) hnodup hdeck
  unfold keepsLargeBet
  dsimp only
  split
  · rfl
  next htwo =>
    split
    · rw [Option.isSome_map, getHandType, if_neg (by decide), Option.isSome_map]
      exact hcur
    next hone =>
      have hother : g.rank c0 ≠ g.rank c1 ∧ g.rank c1 ≠ g.rank c2 ∧ g.rank c0 ≠ g.rank c2 := by
        by_contra hsame
        simp only [getFlopBoardType, if_neg hsame] at htwo hone
        split at htwo
        · exact htwo rfl
        next hthree => exact hone (if_neg hthree)
      obtain ⟨htopNodup, htopDeck⟩ := makeTopPairHand_cards hsuits hranks hother fun c hc =>
        hdeck c (List.mem_append_left _ hc)
      obtain ⟨topPairVal, htop⟩ := Option.isSome_iff_exists.mp (valByCount_five hloaded rfl htopNodup htopDeck)
      rw [htop, Option.bind_some, Option.isSome_map]
      exact hcur

end

end HandMaker

end MasterAI
