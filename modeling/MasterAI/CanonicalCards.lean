import MasterAI.BoardRanges
import MasterAI.FallingOrder

namespace MasterAI

/-- The cards from high to low; nothing where the program does not know how to sort so many and exits. -/
def sortCards {α : Type} [LinearOrder α] : List α → Option (List α)
  | [c0] => some [c0]
  | [c0, c1] => if c0 < c1 then some [c1, c0] else some [c0, c1]
  | [c0, c1, c2] =>
    if c0 > c1 then
      if c1 > c2 then some [c0, c1, c2]
      else if c0 > c2 then some [c0, c2, c1]
      else some [c2, c0, c1]
    else if c0 > c2 then some [c1, c0, c2]
    else if c1 > c2 then some [c1, c2, c0]
    else some [c2, c1, c0]
  | _ => none

namespace SGame

variable (g : SGame)

def encodeRanksOfRawSuitForStreet (rawSuit street : Nat) (rawCards : List Nat) : Nat :=
  g.seenRanks (rawCards.take (g.numCardsForStreet street)) rawSuit

/-- The ranks of a suit, sixteen bits for each street and the lowest for the hole cards, in a word of 64 bits. -/
def encodeRanksOfRawSuit (rawSuit : Nat) (rawBoard : List Nat) (rawHoleCards : Option (List Nat)) (maxStreet : Nat) : Nat :=
  let code := (List.range maxStreet).foldl
    (fun code st =>
      code ||| (g.encodeRanksOfRawSuitForStreet rawSuit (st + 1) (rawBoard.drop (g.numBoardCards st)) <<<
        (16 * (maxStreet - st))) % 2 ^ 64)
    0
  match rawHoleCards with
  | none => code
  | some rawHoleCards => code ||| g.encodeRanksOfRawSuitForStreet rawSuit 0 rawHoleCards

/-- The place of each suit among the sorted ones. -/
def suitMapping (rawBoard : List Nat) (rawHoleCards : Option (List Nat)) (maxStreet s : Nat) : Nat :=
  (fallingOrder 4 fun s => g.encodeRanksOfRawSuit s rawBoard rawHoleCards maxStreet).idxOf s

def mapSuit (mapping : Nat → Nat) (c : Nat) : Nat := g.makeCard (g.rank c) (mapping (g.suit c))

/-- The cards of a board that a street adds. -/
def cardsOn (board : List Nat) (st : Nat) : List Nat := (board.drop (g.numBoardCards (st - 1))).take (g.numCardsForStreet st)

/-- The loop of `CanonicalizeCards` over the streets. -/
def canonStreets (mapping : Nat → Nat) (rawBoard : List Nat) : Nat → Option (List Nat)
  | 0 => some []
  | st + 1 =>
    (canonStreets mapping rawBoard st).bind fun canonBoard =>
      (sortCards ((g.cardsOn rawBoard (st + 1)).map (g.mapSuit mapping))).map fun cards => canonBoard ++ cards

def canonicalizeCards (rawBoard : List Nat) (rawHoleCards : Option (List Nat)) (maxStreet : Nat) :
    Option (List Nat × Option (List Nat)) :=
  let mapping := g.suitMapping rawBoard rawHoleCards maxStreet
  (g.canonStreets mapping rawBoard maxStreet).bind fun canonBoard =>
    match rawHoleCards with
    | none => some (canonBoard, none)
    | some rawHoleCards =>
      (sortCards ((rawHoleCards.take g.numHoleCards).map (g.mapSuit mapping))).map fun canonHoleCards =>
        (canonBoard, some canonHoleCards)

end SGame

def errBdtreeNull : Int := -301

def errBdtreeInvalidCard : Int := -302

/-- `LookupBoard_SBot`, with the tables that `CreateLookup` made or none. -/
def lookupBoardSBot (g : SGame) (lookup : Option (Nat → Nat → Nat)) (board : List Nat) (st : Nat) : Except Int Nat :=
  match lookup with
  | none => .error errBdtreeNull
  | some lookup =>
    let ret := lookup st (g.boardCode st board)
    if ret = kMaxInt then .error errBdtreeInvalidCard else .ok ret

section

variable {α : Type} [LinearOrder α] {cards sorted : List α}

theorem sortCards_perm (h : sortCards cards = some sorted) : sorted.Perm cards := by
  unfold sortCards at h
  split at h
  · rw [← Option.some.inj h]
  · split at h
    · rw [← Option.some.inj h]
      exact List.Perm.swap _ _ []
    · rw [← Option.some.inj h]
  · rename_i c0 c1 c2
    split at h
    · split at h
      · rw [← Option.some.inj h]
      · split at h
        · rw [← Option.some.inj h]
          exact (List.Perm.swap c1 c2 []).cons c0
        · rw [← Option.some.inj h]
          show ([c2] ++ [c0, c1]).Perm ([c0, c1] ++ [c2])
          exact List.perm_append_comm
    · split at h
      · rw [← Option.some.inj h]
        exact List.Perm.swap c0 c1 [c2]
      · split at h
        · rw [← Option.some.inj h]
          show ([c1, c2] ++ [c0]).Perm ([c0] ++ [c1, c2])
          exact List.perm_append_comm
        · rw [← Option.some.inj h]
          exact List.reverse_perm [c0, c1, c2]
  · cases h

theorem sortCards_isSome (cards : List α) (hlength : cards.length = 1 ∨ cards.length = 2 ∨ cards.length = 3) :
    ∃ sorted, sortCards cards = some sorted := by
  match cards, hlength with
  | [c0], _ => exact ⟨[c0], rfl⟩
  | [c0, c1], _ =>
    rw [sortCards]
    split <;> exact ⟨_, rfl⟩
  | [c0, c1, c2], _ =>
    rw [sortCards]
    repeat' split
    all_goals exact ⟨_, rfl⟩

theorem sortCards_falling (h : sortCards cards = some sorted) (hnodup : cards.Nodup) : sorted.Pairwise (· > ·) := by
  have hsorted : sorted.Pairwise (· ≥ ·) := by
    unfold sortCards at h
    split at h
    · rw [← Option.some.inj h]
      exact List.pairwise_singleton _ _
    · split at h
      · rename_i hlt
        rw [← Option.some.inj h]
        simpa using hlt.le
      · rename_i hlt
        rw [← Option.some.inj h]
        simpa using hlt
    · repeat' split at h
      all_goals
        rw [← Option.some.inj h]
        simp only [List.pairwise_cons, List.mem_cons, List.not_mem_nil, or_false, forall_eq_or_imp, forall_eq,
          IsEmpty.forall_iff, implies_true, List.Pairwise.nil, and_true]
        grind
    · cases h
  have hdistinct := (sortCards_perm h).nodup_iff.mpr hnodup
  refine (hsorted.and hdistinct).imp ?_
  rintro a b ⟨hge, hne⟩
  exact lt_of_le_of_ne hge hne.symm

end

/-- A higher number has the higher digit where the digits above it are the same. -/
theorem digit_le {b a a' : Nat} {low low' high : List Nat} (hlength : low.length = low'.length)
    (hlow : Nat.ofDigits b low' < b ^ low'.length)
    (hle : Nat.ofDigits b (low ++ a :: high) ≤ Nat.ofDigits b (low' ++ a' :: high)) : a ≤ a' := by
  rw [Nat.ofDigits_append, Nat.ofDigits_append, Nat.ofDigits_cons, Nat.ofDigits_cons, hlength, Nat.mul_add, Nat.mul_add] at hle
  by_contra hlt
  have hmul := Nat.mul_le_mul_left (b ^ low'.length) (show a' + 1 ≤ a by omega)
  rw [Nat.mul_add, Nat.mul_one] at hmul
  omega

namespace SGame

section

variable {g : SGame} {cards cards' : List Nat} {s r c d : Nat} {m : Nat → Nat}

/-- The bits of a suit are the ranks of its cards. -/
theorem testBit_seenRanks : (g.seenRanks cards s).testBit r = true ↔ ∃ c ∈ cards, g.suit c = s ∧ g.rank c = r := by
  induction cards with
  | nil => simp [seenRanks]
  | cons c cards ih =>
    rw [seenRanks_cons]
    by_cases hs : g.suit c = s
    · rw [if_pos hs, Nat.testBit_or, Bool.or_eq_true, ih, Nat.testBit_two_pow, decide_eq_true_eq]
      constructor
      · rintro (⟨d, hd, hsuit, hrank⟩ | hrank)
        · exact ⟨d, List.mem_cons_of_mem _ hd, hsuit, hrank⟩
        · exact ⟨c, by simp, hs, hrank⟩
      · rintro ⟨d, hd, hsuit, hrank⟩
        rcases List.mem_cons.mp hd with rfl | hd
        · exact .inr hrank
        · exact .inl ⟨d, hd, hsuit, hrank⟩
    · rw [if_neg hs, ih]
      constructor
      · rintro ⟨d, hd, hsuit, hrank⟩
        exact ⟨d, List.mem_cons_of_mem _ hd, hsuit, hrank⟩
      · rintro ⟨d, hd, hsuit, hrank⟩
        rcases List.mem_cons.mp hd with rfl | hd
        · exact absurd hsuit hs
        · exact ⟨d, hd, hsuit, hrank⟩

theorem seenRanks_congr (h : ∀ r, (∃ c ∈ cards, g.suit c = s ∧ g.rank c = r) ↔ ∃ c ∈ cards', g.suit c = d ∧ g.rank c = r) :
    g.seenRanks cards s = g.seenRanks cards' d := by
  apply Nat.eq_of_testBit_eq
  intro r
  rw [Bool.eq_iff_iff, testBit_seenRanks, testBit_seenRanks]
  exact h r

theorem seenRanks_perm (h : cards.Perm cards') : g.seenRanks cards s = g.seenRanks cards' s := by
  apply seenRanks_congr
  intro r
  simp only [h.mem_iff]

theorem rank_makeCard (hs : s < g.numSuits) : g.rank (g.makeCard r s) = r := by
  rw [rank, makeCard, Nat.mul_comm, Nat.mul_add_div g.suits_pos, Nat.div_eq_of_lt hs, Nat.add_zero]

theorem suit_makeCard (hs : s < g.numSuits) : g.suit (g.makeCard r s) = s := by
  rw [suit, makeCard, Nat.mul_comm, Nat.mul_add_mod, Nat.mod_eq_of_lt hs]

theorem rank_lt (hc : c < g.numCardsInDeck) : g.rank c < g.numRanks := by
  rw [rank, Nat.div_lt_iff_lt_mul g.suits_pos]
  exact hc

theorem makeCard_lt (hr : r < g.numRanks) (hs : s < g.numSuits) : g.makeCard r s < g.numCardsInDeck := by
  rw [makeCard, numCardsInDeck]
  calc r * g.numSuits + s < (r + 1) * g.numSuits := by rw [Nat.succ_mul]; omega
    _ ≤ g.numRanks * g.numSuits := Nat.mul_le_mul_right _ hr

/-- A map of the suits of a game to each other. -/
structure SuitPerm (g : SGame) (m : Nat → Nat) : Prop where
  lt : ∀ s < g.numSuits, m s < g.numSuits
  inj : ∀ s < g.numSuits, ∀ t < g.numSuits, m s = m t → s = t

theorem SuitPerm.rank_mapSuit (hm : g.SuitPerm m) (c : Nat) : g.rank (g.mapSuit m c) = g.rank c :=
  rank_makeCard (hm.lt _ (suit_lt c))

theorem SuitPerm.suit_mapSuit (hm : g.SuitPerm m) (c : Nat) : g.suit (g.mapSuit m c) = m (g.suit c) :=
  suit_makeCard (hm.lt _ (suit_lt c))

theorem SuitPerm.mapSuit_lt (hm : g.SuitPerm m) (hc : c < g.numCardsInDeck) : g.mapSuit m c < g.numCardsInDeck :=
  makeCard_lt (rank_lt hc) (hm.lt _ (suit_lt c))

theorem SuitPerm.mapSuit_inj (hm : g.SuitPerm m) (h : g.mapSuit m c = g.mapSuit m d) : c = d := by
  have hrank : g.rank c = g.rank d := by
    rw [← hm.rank_mapSuit c, h, hm.rank_mapSuit]
  have hsuit : g.suit c = g.suit d := by
    apply hm.inj _ (suit_lt c) _ (suit_lt d)
    rw [← hm.suit_mapSuit c, h, hm.suit_mapSuit]
  rw [← card_eq (g := g) c, hrank, hsuit, card_eq]

theorem SuitPerm.nodup_map (hm : g.SuitPerm m) (h : cards.Nodup) : (cards.map (g.mapSuit m)).Nodup :=
  h.map fun _ _ heq => hm.mapSuit_inj heq

/-- The ranks of a suit go with it. -/
theorem SuitPerm.seenRanks_map (hm : g.SuitPerm m) (hs : s < g.numSuits) :
    g.seenRanks (cards.map (g.mapSuit m)) (m s) = g.seenRanks cards s := by
  apply seenRanks_congr
  intro r
  constructor
  · rintro ⟨c, hc, hsuit, hrank⟩
    obtain ⟨d, hd, rfl⟩ := List.mem_map.mp hc
    rw [hm.suit_mapSuit] at hsuit
    rw [hm.rank_mapSuit] at hrank
    exact ⟨d, hd, hm.inj _ (suit_lt d) _ hs hsuit, hrank⟩
  · rintro ⟨d, hd, rfl, hrank⟩
    exact ⟨g.mapSuit m d, List.mem_map_of_mem hd, hm.suit_mapSuit d, by rw [hm.rank_mapSuit, hrank]⟩

end

section

variable (g : SGame)

/-- The codes of a suit on the streets of a board, the last street first. -/
def lanes (board : List Nat) (s : Nat) : Nat → List Nat
  | 0 => []
  | st + 1 => g.seenRanks (g.cardsOn board (st + 1)) s :: lanes board s st

/-- The code of a suit in the hole cards. -/
def holeLane (hole : Option (List Nat)) (s : Nat) : Nat :=
  match hole with
  | none => 0
  | some hole => g.seenRanks (hole.take g.numHoleCards) s

/-- Cards that may be dealt up to a street, with or without hole cards. -/
structure RawCards (st : Nat) (board : List Nat) (hole : Option (List Nat)) : Prop where
  length : g.numBoardCards st ≤ board.length
  nodup : (board.take (g.numBoardCards st)).Nodup
  cards : ∀ c ∈ board.take (g.numBoardCards st), c < g.numCardsInDeck
  hole : ∀ h ∈ hole, h.length = g.numHoleCards ∧ ∀ c ∈ h, c < g.numCardsInDeck

/-- A game as `Initialize` sets it up, with ranks that fit the codes of `CanonicalizeCards`. -/
structure Playable : Prop extends g.Dealable where
  ranks : g.numRanks ≤ 16
  deck : g.numCardsInDeck ≤ 52
  threeStreets : g.maxStreet ≤ 3
  boardCards : g.numBoardCards g.maxStreet ≤ 5
  holeCards : g.numHoleCards = 1 ∨ g.numHoleCards = 2

variable {g} {st t k s u v : Nat} {board : List Nat} {hole : Option (List Nat)} {m : Nat → Nat}

theorem take_numBoardCards_succ (hst : st < g.maxStreet) (board : List Nat) :
    board.take (g.numBoardCards (st + 1)) = board.take (g.numBoardCards st) ++ g.cardsOn board (st + 1) := by
  rw [numBoardCards_succ hst, List.take_add]
  rfl

theorem RawCards.mono (h : g.RawCards st board hole) (ht : t ≤ st) : g.RawCards t board hole := by
  have hle := numBoardCards_mono (g := g) ht
  have hsub : List.Sublist (board.take (g.numBoardCards t)) (board.take (g.numBoardCards st)) :=
    List.take_sublist_take_left hle
  exact ⟨hle.trans h.length, h.nodup.sublist hsub, fun c hc => h.cards c (hsub.subset hc), h.hole⟩

theorem RawCards.cardsOn_lt (h : g.RawCards (st + 1) board hole) (hst : st < g.maxStreet) :
    ∀ c ∈ g.cardsOn board (st + 1), c < g.numCardsInDeck := by
  intro c hc
  apply h.cards
  rw [take_numBoardCards_succ hst]
  exact List.mem_append_right _ hc

theorem seenRanks_lt_lane (hg : g.Playable) {cards : List Nat} (h : ∀ c ∈ cards, c < g.numCardsInDeck) :
    g.seenRanks cards s < 2 ^ 16 := by
  apply seenRanks_lt
  intro c hc
  have hrank := rank_lt (h c hc)
  have hranks := hg.ranks
  omega

theorem lanes_lt (hg : g.Playable) (h : g.RawCards st board hole) (hst : st ≤ g.maxStreet) :
    ∀ d ∈ g.lanes board s st, d < 2 ^ 16 := by
  induction st with
  | zero => simp [lanes]
  | succ st ih =>
    intro d hd
    rcases List.mem_cons.mp hd with rfl | hd
    · exact seenRanks_lt_lane hg (h.cardsOn_lt hst)
    · exact ih (h.mono (by omega)) (by omega) d hd

theorem holeLane_lt (hg : g.Playable) (h : g.RawCards st board hole) : g.holeLane hole s < 2 ^ 16 := by
  cases hole with
  | none => exact Nat.two_pow_pos 16
  | some hole =>
    apply seenRanks_lt_lane hg
    intro c hc
    exact (h.hole hole rfl).2 c (List.mem_of_mem_take hc)

theorem lanes_length : (g.lanes board s st).length = st := by
  induction st with
  | zero => rfl
  | succ st ih => rw [lanes, List.length_cons, ih]

/-- The code of a suit has the codes of the streets as its digits. -/
theorem encodeRanksOfRawSuit_eq (hg : g.Playable) (h : g.RawCards st board hole) (hst : st ≤ g.maxStreet) :
    g.encodeRanksOfRawSuit s board hole st = Nat.ofDigits (2 ^ 16) (g.holeLane hole s :: g.lanes board s st) := by
  have hthree := hg.threeStreets
  have hloop : ∀ t ≤ st, (List.range t).foldl
      (fun code t => code ||| (g.encodeRanksOfRawSuitForStreet s (t + 1) (board.drop (g.numBoardCards t)) <<<
        (16 * (st - t))) % 2 ^ 64) 0 = Nat.ofDigits (2 ^ 16) (g.lanes board s t) <<< (16 * (st + 1 - t)) := by
    intro t ht
    induction t with
    | zero => simp [lanes]
    | succ t ih =>
      have hlane : g.encodeRanksOfRawSuitForStreet s (t + 1) (board.drop (g.numBoardCards t)) < 2 ^ 16 :=
        seenRanks_lt_lane hg ((h.mono ht).cardsOn_lt (by omega))
      have hshift : g.encodeRanksOfRawSuitForStreet s (t + 1) (board.drop (g.numBoardCards t)) <<< (16 * (st - t)) <
          2 ^ (16 * (st + 1 - t)) := by
        rw [Nat.shiftLeft_eq, show 16 * (st + 1 - t) = 16 + 16 * (st - t) by omega, Nat.pow_add]
        exact Nat.mul_lt_mul_of_pos_right hlane (Nat.two_pow_pos _)
      have hword : 2 ^ (16 * (st + 1 - t)) ≤ 2 ^ 64 := Nat.pow_le_pow_right (by omega) (by omega)
      rw [List.range_succ, List.foldl_append, ih (by omega), List.foldl_cons, List.foldl_nil,
        Nat.mod_eq_of_lt (hshift.trans_le hword), ← Nat.shiftLeft_add_eq_or_of_lt hshift, lanes, Nat.ofDigits_cons,
        Nat.shiftLeft_eq, Nat.shiftLeft_eq, Nat.shiftLeft_eq, show st + 1 - (t + 1) = st - t by omega,
        show 16 * (st + 1 - t) = 16 + 16 * (st - t) by omega, Nat.pow_add]
      show _ = (g.encodeRanksOfRawSuitForStreet s (t + 1) (board.drop (g.numBoardCards t)) + _) * _
      ring
  have hall := hloop st (le_refl st)
  have hhole := holeLane_lt (s := s) hg h
  rw [Nat.add_sub_cancel_left, Nat.mul_one] at hall
  rw [Nat.ofDigits_cons, Nat.add_comm]
  cases hole with
  | none =>
    rw [encodeRanksOfRawSuit]
    rw [hall, Nat.shiftLeft_eq, Nat.mul_comm]
    rfl
  | some hole =>
    rw [encodeRanksOfRawSuit]
    show _ ||| g.holeLane (some hole) s = _
    rw [hall, ← Nat.shiftLeft_add_eq_or_of_lt hhole, Nat.shiftLeft_eq, Nat.mul_comm]

end

section

variable {g : SGame} {st t s u v p q : Nat} {board : List Nat} {hole : Option (List Nat)} {m : Nat → Nat}

/-- The suit at a place among the sorted ones. -/
def suitAt (g : SGame) (board : List Nat) (hole : Option (List Nat)) (st p : Nat) : Nat :=
  placed 4 (fun s => g.encodeRanksOfRawSuit s board hole st) p

theorem seenRanks_absent (hs : g.numSuits ≤ s) (cards : List Nat) : g.seenRanks cards s = 0 := by
  apply Nat.eq_of_testBit_eq
  intro r
  rw [Nat.zero_testBit, Bool.eq_false_iff, ne_eq, testBit_seenRanks]
  rintro ⟨c, -, hsuit, -⟩
  have := suit_lt (g := g) c
  omega

theorem encodeRanksOfRawSuit_absent (hg : g.Playable) (h : g.RawCards st board hole) (hst : st ≤ g.maxStreet)
    (hs : g.numSuits ≤ s) : g.encodeRanksOfRawSuit s board hole st = 0 := by
  have hlanes : ∀ t, g.lanes board s t = List.replicate t 0 := by
    intro t
    induction t with
    | zero => rfl
    | succ t ih => rw [lanes, ih, seenRanks_absent hs, List.replicate_succ]
  have hhole : g.holeLane hole s = 0 := by
    cases hole with
    | none => rfl
    | some hole => exact seenRanks_absent hs _
  rw [encodeRanksOfRawSuit_eq hg h hst, hlanes, hhole, ← List.replicate_succ, Nat.ofDigits_replicate_zero]

/-- The suits of the game have the first places. -/
theorem suitMapping_lt_iff (hg : g.Playable) (h : g.RawCards st board hole) (hst : st ≤ g.maxStreet) (hs : s < 4) :
    g.suitMapping board hole st s < g.numSuits ↔ s < g.numSuits := by
  apply idxOf_fallingOrder_lt_iff _ hs
  intro u hu v _ hv
  have hzero := encodeRanksOfRawSuit_absent hg h hst hv
  rcases Nat.eq_zero_or_pos (g.encodeRanksOfRawSuit u board hole st) with heq | hpos
  · exact .inr ⟨heq.trans hzero.symm, by omega⟩
  · exact .inl (hzero.trans_lt hpos)

theorem suitMapping_suitAt (hp : p < 4) : g.suitMapping board hole st (g.suitAt board hole st p) = p := idxOf_placed hp

theorem suitAt_suitMapping (hs : s < 4) : g.suitAt board hole st (g.suitMapping board hole st s) = s := placed_idxOf hs

theorem suitAt_lt (hg : g.Playable) (h : g.RawCards st board hole) (hst : st ≤ g.maxStreet) (hp : p < g.numSuits) :
    g.suitAt board hole st p < g.numSuits := by
  have hsuits := hg.suits
  have hplaced : g.suitAt board hole st p < 4 := placed_lt (by omega)
  rw [← suitMapping_lt_iff hg h hst hplaced, suitMapping_suitAt (by omega)]
  exact hp

theorem suitMapping_perm (hg : g.Playable) (h : g.RawCards st board hole) (hst : st ≤ g.maxStreet) :
    g.SuitPerm (g.suitMapping board hole st) := by
  have hsuits := hg.suits
  refine ⟨?_, ?_⟩
  · intro s hs
    exact (suitMapping_lt_iff hg h hst (by omega)).mpr hs
  · intro s hs t ht heq
    have hback : g.suitAt board hole st (g.suitMapping board hole st s) = s := suitAt_suitMapping (by omega)
    rw [← hback, heq, suitAt_suitMapping (by omega)]

theorem lanes_split (k : Nat) : g.lanes board s (t + k) = (g.lanes board s (t + k)).take k ++ g.lanes board s t := by
  induction k with
  | zero => rw [Nat.add_zero, List.take_zero, List.nil_append]
  | succ k ih =>
    rw [← Nat.add_assoc, lanes, List.take_succ_cons, List.cons_append, ← ih]

/-- Of two suits with the same codes so far, the one at the later place has no higher code on the next street. -/
theorem lane_le (hg : g.Playable) (h : g.RawCards st board hole) (hst : st ≤ g.maxStreet) (ht : t < st) (hpq : p < q)
    (hq : q < 4) (hsame : g.lanes board (g.suitAt board hole st p) t = g.lanes board (g.suitAt board hole st q) t) :
    g.seenRanks (g.cardsOn board (t + 1)) (g.suitAt board hole st q) ≤
      g.seenRanks (g.cardsOn board (t + 1)) (g.suitAt board hole st p) := by
  have hbefore : Before (fun s => g.encodeRanksOfRawSuit s board hole st) (g.suitAt board hole st p)
      (g.suitAt board hole st q) := placed_before hpq hq
  have hle := hbefore.ge
  rw [encodeRanksOfRawSuit_eq hg h hst, encodeRanksOfRawSuit_eq hg h hst] at hle
  obtain ⟨k, rfl⟩ := Nat.exists_eq_add_of_le (show t + 1 ≤ st by omega)
  rw [lanes_split k, lanes_split (s := g.suitAt board hole (t + 1 + k) p) k, lanes, lanes, ← hsame, ← List.cons_append,
    ← List.cons_append] at hle
  refine digit_le ?_ ?_ hle
  · simp [lanes_length]
  · apply Nat.ofDigits_lt_base_pow_length (by norm_num)
    intro d hd
    rcases List.mem_cons.mp hd with rfl | hd
    · exact holeLane_lt hg h
    · exact lanes_lt hg h hst d (List.mem_of_mem_take hd)

theorem cardsOn_length (h : g.RawCards (t + 1) board hole) (ht : t < g.maxStreet) :
    (g.cardsOn board (t + 1)).length = g.numCardsForStreet (t + 1) := by
  have hlength := h.length
  rw [numBoardCards_succ ht] at hlength
  rw [cardsOn, List.length_take, List.length_drop, Nat.add_sub_cancel]
  omega

/-- Street by street, the canonical board is among the boards that `Build` lists, and its groups are the
suits whose codes are the same so far. -/
theorem canonStreets_listed (hg : g.Playable) (h : g.RawCards st board hole) (hst : st ≤ g.maxStreet) (ht : t ≤ st) :
    ∃ canon sg, g.canonStreets (g.suitMapping board hole st) board t = some canon ∧ (canon, sg) ∈ g.streetBoards t ∧
      canon.Perm ((board.take (g.numBoardCards t)).map (g.mapSuit (g.suitMapping board hole st))) ∧
      ∀ p < g.numSuits, ∀ q < g.numSuits, groupOf sg p = groupOf sg q ↔
        g.lanes board (g.suitAt board hole st p) t = g.lanes board (g.suitAt board hole st q) t := by
  have hsuits := hg.suits
  have hm := suitMapping_perm hg h hst
  induction t with
  | zero =>
    refine ⟨[], noGroups, rfl, ?_, ?_, ?_⟩
    · rw [streetBoards, descend, List.mem_singleton]
    · simp [numBoardCards]
    · intro p hp q hq
      rw [groupOf_noGroups, groupOf_noGroups]
      exact ⟨fun _ => rfl, fun _ => rfl⟩
  | succ t ih =>
    obtain ⟨canon, sg, hcanon, hmem, hperm, hgroups⟩ := ih (by omega)
    have hraw := h.mono ht
    have hnode := streetBoards_valid hg.toDealable (by omega) hmem
    have hnodup := hraw.nodup
    rw [take_numBoardCards_succ (by omega), List.nodup_append] at hnodup
    have hlength := cardsOn_length hraw (by omega)
    have hmapped : ((g.cardsOn board (t + 1)).map (g.mapSuit (g.suitMapping board hole st))).length =
        g.numCardsForStreet (t + 1) := by rw [List.length_map, hlength]
    obtain ⟨cards, hcards⟩ := sortCards_isSome _ (by rw [hmapped]; exact hg.street (by omega))
    have hcardsPerm := sortCards_perm hcards
    have hcodes : ∀ p < g.numSuits, g.seenRanks cards p = g.seenRanks (g.cardsOn board (t + 1)) (g.suitAt board hole st p) := by
      intro p hp
      have hat := suitAt_lt hg h hst hp
      rw [seenRanks_perm hcardsPerm, ← hm.seenRanks_map hat, suitMapping_suitAt (by omega)]
    refine ⟨canon ++ cards, g.updateSuitGroups cards sg, ?_, ?_, ?_, ?_⟩
    · rw [canonStreets, hcanon, Option.bind_some, hcards]
      rfl
    · rw [streetBoards_succ, List.mem_flatMap]
      refine ⟨(canon, sg), hmem, (mem_nextBoards hg.toDealable (by omega) hnode).mpr ⟨cards, ?_, ?_, rfl⟩⟩
      · refine mem_fallingCards.mpr ⟨?_, sortCards_falling hcards (hm.nodup_map hnodup.2.1), ?_⟩
        · rw [hcardsPerm.length_eq, hmapped]
        · intro c hc
          obtain ⟨d, hd, rfl⟩ := List.mem_map.mp (hcardsPerm.mem_iff.mp hc)
          refine ⟨hm.mapSuit_lt (hraw.cardsOn_lt (by omega) d hd), ?_⟩
          intro hold
          obtain ⟨e, he, heq⟩ := List.mem_map.mp (hperm.mem_iff.mp hold)
          exact hnodup.2.2 e he d hd (hm.mapSuit_inj heq)
      · intro p q hpq hq hsame
        rw [hcodes q hq, hcodes p (by omega)]
        exact lane_le hg h hst (by omega) hpq (by omega) ((hgroups p (by omega) q hq).mp hsame)
    · rw [take_numBoardCards_succ (by omega), List.map_append]
      exact hperm.append hcardsPerm
    · intro p hp q hq
      rw [updateSuitGroups_eq_iff hsuits hp hq, hgroups p hp q hq, hcodes p hp, hcodes q hq, lanes, lanes,
        List.cons.injEq, and_comm]

theorem Indexed.lookupBoardSBot {tree : PCardTree} (h : g.Indexed tree) (hg : g.Playable) (hst : st ≤ g.maxStreet)
    {bd : Nat} (hbd : bd < (g.streetBoards st).length) :
    lookupBoardSBot g (some (tree.createLookup g)) (tree.boards st bd) st = .ok bd := by
  have hlookup := h.lookupBoard hg.toDealable hst hg.deck hg.boardCards hbd
  unfold PCardTree.lookupBoard at hlookup
  unfold MasterAI.lookupBoardSBot
  dsimp only at hlookup ⊢
  split at hlookup
  · cases hlookup
  · rename_i hfound
    rw [if_neg hfound, Option.some.inj hlookup]

theorem canonicalizeCards_eq (hg : g.Playable) (h : g.RawCards st board hole) {canon : List Nat}
    (hcanon : g.canonStreets (g.suitMapping board hole st) board st = some canon) :
    ∃ canonHole, g.canonicalizeCards board hole st = some (canon, canonHole) ∧
      ∀ raw ∈ hole, ∃ sorted ∈ canonHole, sorted.Perm (raw.map (g.mapSuit (g.suitMapping board hole st))) ∧
        (raw.Nodup → g.SuitPerm (g.suitMapping board hole st) → sorted.Pairwise (· > ·)) := by
  cases hole with
  | none =>
    refine ⟨none, ?_, by simp⟩
    rw [canonicalizeCards, hcanon, Option.bind_some]
  | some raw =>
    obtain ⟨hlength, -⟩ := h.hole raw rfl
    have hcards := hg.holeCards
    obtain ⟨sorted, hsorted⟩ := sortCards_isSome (raw.map (g.mapSuit (g.suitMapping board (some raw) st)))
      (by rw [List.length_map]; omega)
    refine ⟨some sorted, ?_, ?_⟩
    · rw [canonicalizeCards, hcanon, Option.bind_some]
      dsimp only
      rw [List.take_of_length_le hlength.le, hsorted]
      rfl
    · rintro raw' ⟨⟩
      refine ⟨sorted, rfl, sortCards_perm hsorted, ?_⟩
      intro hnodup hm
      exact sortCards_falling hsorted (hm.nodup_map hnodup)

/-- Every board is canonicalized to a board of the tree, which the lookup finds. -/
theorem lookup_canonicalized (hg : g.Playable) {tree : PCardTree} (htree : g.create = some tree)
    (hst : st ≤ g.maxStreet) (h : g.RawCards st board hole) :
    ∃ canonBoard canonHoleCards bd, g.canonicalizeCards board hole st = some (canonBoard, canonHoleCards) ∧
      bd < tree.numBoards st ∧ tree.boards st bd = canonBoard ∧
      lookupBoardSBot g (some (tree.createLookup g)) canonBoard st = .ok bd ∧
      ∀ bd' < tree.numBoards st, tree.boards st bd' = canonBoard → bd' = bd := by
  obtain ⟨-, -, tree', -, -, -, htree', -, hindexed⟩ := create_indexed hg.toDealable
  have heq : tree' = tree := Option.some.inj (htree'.symm.trans htree)
  rw [heq] at hindexed
  obtain ⟨canon, sg, hcanon, hmem, -, -⟩ := canonStreets_listed hg h hst (le_refl st)
  obtain ⟨canonHole, hresult, -⟩ := canonicalizeCards_eq hg h hcanon
  obtain ⟨bd, hbd, hget⟩ := List.getElem_of_mem hmem
  have hnode := hindexed.nodes st hst bd hbd
  rw [List.getElem?_eq_getElem hbd, hget, Option.some.injEq, Prod.mk.injEq] at hnode
  rw [hindexed.numBoards st hst]
  refine ⟨canon, canonHole, bd, hresult, hbd, hnode.1.symm, ?_, ?_⟩
  · rw [hnode.1]
    exact hindexed.lookupBoardSBot hg hst hbd
  · intro bd' hbd' hboard
    exact hindexed.board_inj hg.toDealable hst hbd' hbd (hboard.trans hnode.1)

/-- Two hole cards and a flop, a turn and a river from a full deck. -/
def holdem : SGame := ⟨13, 4, 2, [3, 1, 1], by decide, by decide⟩

theorem holdem_playable : holdem.Playable :=
  { suits := by decide
    streets := by decide
    ranks := by decide
    deck := by decide
    threeStreets := by decide
    boardCards := by decide
    holeCards := by decide }

theorem lookup_canonicalized_holdem :
    ∃ tree, holdem.create = some tree ∧
      ∃ canonBoard canonHoleCards bd,
        holdem.canonicalizeCards [50, 31, 2, 17, 8] (some [49, 48]) 3 = some (canonBoard, canonHoleCards) ∧
        bd < tree.numBoards 3 ∧ tree.boards 3 bd = canonBoard ∧
        lookupBoardSBot holdem (some (tree.createLookup holdem)) canonBoard 3 = .ok bd ∧
        ∀ bd' < tree.numBoards 3, tree.boards 3 bd' = canonBoard → bd' = bd := by
  obtain ⟨-, -, tree, -, -, -, htree, -, -⟩ := create_indexed holdem_playable.toDealable
  refine ⟨tree, htree, lookup_canonicalized holdem_playable htree (by decide) ⟨?_, ?_, ?_, ?_⟩⟩
  · decide
  · decide
  · decide
  · decide

end

end SGame

end MasterAI
