import MasterAI.ActionInfo
import MasterAI.BoardCounts
import MasterAI.SuitSymmetry

namespace MasterAI

namespace SGame

variable (g : SGame)

def numHoleCardPairs (st : Nat) : Nat :=
  let numRemaining := g.numCardsInDeck - g.numBoardCards st
  if g.numHoleCards = 2 then numRemaining * (numRemaining - 1) / 2 else numRemaining

/-- The number of a private hand among those that the board leaves. -/
def getPrivateHandIdxWithTotalCards (st : Nat) (board holeCards : List Nat) : Int :=
  let boardCards := board.take (g.numBoardCards st)
  if g.numHoleCards = 1 then
    let c := holeCards.getD 0 0
    (c : Int) - boardCards.countP fun b => b < c
  else
    let hi := holeCards.getD 0 0
    let lo := holeCards.getD 1 0
    let hiIndex := (hi : Int) - boardCards.countP fun b => b < lo ∨ b < hi
    let loIndex := (lo : Int) - boardCards.countP fun b => b < lo
    ((hiIndex - 1) * hiIndex).tdiv 2 + loIndex

/-- The first streets of a board, each sorted in its place. -/
def sortStreets (boardCards : List Int) : Nat → Option (List Int)
  | 0 => some boardCards
  | st + 1 =>
    (sortStreets boardCards st).bind fun cards =>
      (sortCards ((cards.drop (g.numBoardCards st)).take (g.numCardsForStreet (st + 1)))).map fun sorted =>
        cards.take (g.numBoardCards st) ++ sorted ++ cards.drop (g.numBoardCards (st + 1))

/-- The number of a hand from its board and its private cards, in 32 bits. -/
def handNumber (st bd : Nat) (hcp : Int) : Nat := ((((bd * g.numHoleCardPairs st : Nat) : Int) + hcp) % 4294967296).toNat

/-- The hand index in `GetBucketIdx`: nothing where the program exits, or the error of the board lookup. -/
def handIndex (lookup : Option (Nat → Nat → Nat)) (info : ActionInfo) : Option (Except Int Nat) :=
  (sortCards info.hcpCards).bind fun tmpHoleCards =>
    (g.sortStreets info.boardCards 3).bind fun tmpBoardCards =>
      let holeCards := tmpHoleCards.map Int.toNat
      let boardCards := tmpBoardCards.map Int.toNat
      let st := info.st.toNat
      if info.st = 0 then some (.ok (g.handNumber st 0 (g.getPrivateHandIdxWithTotalCards st [] holeCards)))
      else
        (g.canonicalizeCards boardCards (some holeCards) st).map fun (canonBoard, canonHoleCards) =>
          (lookupBoardSBot g lookup canonBoard st).map fun bd =>
            g.handNumber st bd (g.getPrivateHandIdxWithTotalCards st canonBoard (canonHoleCards.getD []))

end SGame

def numCards : Int := 52

/-- The loop of `CheckCards` over some cards, with the cards that exist already. -/
def checkCardsFrom : List Int → List Int → Option (List Int)
  | existing, [] => some existing
  | existing, c :: rest =>
    if c < 0 ∨ c ≥ numCards then none else if c ∈ existing then none else checkCardsFrom (c :: existing) rest

def checkCards (info : ActionInfo) : Bool :=
  ((checkCardsFrom [] (info.hcpCards.take 2)).bind fun existing =>
    checkCardsFrom existing (info.boardCards.take (streetBoardCnt.getD info.st.toNat 0))).isSome

section

variable {board : List Nat} {c d n a b a' b' : Nat}

/-- How many cards are below a card and not on the board. -/
def lowered (board : List Nat) (c : Nat) : Nat := c - board.countP fun b => b < c

theorem countP_lt_le (hnodup : board.Nodup) (c : Nat) : (board.countP fun b => b < c) ≤ c := by
  have hsub : (board.filter fun b => b < c) ⊆ List.range c := by
    intro b hb
    exact List.mem_range.mpr (by simpa using (List.mem_filter.mp hb).2)
  have hle := (List.subperm_of_subset (hnodup.filter _) hsub).length_le
  rw [List.length_range] at hle
  rw [List.countP_eq_length_filter]
  exact hle

theorem lowered_lt (hnodup : board.Nodup) (hcd : c < d) (hc : c ∉ board) : lowered board c < lowered board d := by
  have hsub : (board.filter fun b => b < d) ⊆ (board.filter fun b => b < c) ++ List.range' (c + 1) (d - c - 1) := by
    intro b hb
    obtain ⟨hmem, hlt⟩ := List.mem_filter.mp hb
    rw [decide_eq_true_eq] at hlt
    have hne : b ≠ c := by
      rintro rfl
      exact hc hmem
    by_cases hbc : b < c
    · exact List.mem_append_left _ (List.mem_filter.mpr ⟨hmem, by simpa using hbc⟩)
    · exact List.mem_append_right _ (List.mem_range'_1.mpr (by omega))
  have hle := (List.subperm_of_subset (hnodup.filter _) hsub).length_le
  rw [List.length_append, List.length_range', ← List.countP_eq_length_filter, ← List.countP_eq_length_filter] at hle
  have hbelow := countP_lt_le hnodup c
  unfold lowered
  omega

theorem lowered_inj (hnodup : board.Nodup) (hc : c ∉ board) (hd : d ∉ board) (heq : lowered board c = lowered board d) :
    c = d := by
  rcases Nat.lt_trichotomy c d with hlt | heq | hlt
  · have := lowered_lt hnodup hlt hc
    omega
  · exact heq
  · have := lowered_lt hnodup hlt hd
    omega

theorem choose_two_succ (a : Nat) : (a + 1).choose 2 = a + a.choose 2 := by
  rw [Nat.choose_succ_succ, Nat.choose_one_right]

/-- A pair of falling numbers is determined by its number among all such pairs. -/
theorem pair_inj (hab : b < a) (hab' : b' < a') (heq : a.choose 2 + b = a'.choose 2 + b') : a = a' ∧ b = b' := by
  rcases Nat.lt_trichotomy a a' with hlt | rfl | hlt
  · have hmono := Nat.choose_le_choose 2 (show a + 1 ≤ a' by omega)
    rw [choose_two_succ] at hmono
    omega
  · omega
  · have hmono := Nat.choose_le_choose 2 (show a' + 1 ≤ a by omega)
    rw [choose_two_succ] at hmono
    omega

theorem pair_lt (hab : b < a) (han : a < n) : a.choose 2 + b < n.choose 2 := by
  have hmono := Nat.choose_le_choose 2 (show a + 1 ≤ n by omega)
  rw [choose_two_succ] at hmono
  omega

end

namespace SGame

section

variable {g : SGame} {st bd bd' hi lo hi' lo' : Nat} {board : List Nat}

theorem numHoleCardPairs_eq (htwo : g.numHoleCards = 2) :
    g.numHoleCardPairs st = (g.numCardsInDeck - g.numBoardCards st).choose 2 := by
  rw [numHoleCardPairs, if_pos htwo, Nat.choose_two_right]

/-- The number of two falling hole cards counts the pairs of cards off the board. -/
theorem getPrivateHandIdx_eq (htwo : g.numHoleCards = 2) (hlength : board.length = g.numBoardCards st)
    (hnodup : board.Nodup) (hlo : lo ∉ board) (hlt : lo < hi) :
    g.getPrivateHandIdxWithTotalCards st board [hi, lo] = ((lowered board hi).choose 2 + lowered board lo : Nat) := by
  have hcount : (board.countP fun b => decide (b < lo ∨ b < hi)) = board.countP fun b => decide (b < hi) := by
    congr 1
    funext b
    rw [decide_eq_decide]
    omega
  have hhi := countP_lt_le hnodup hi
  have hlow := countP_lt_le hnodup lo
  have hpos := lowered_lt hnodup hlt hlo
  obtain ⟨k, hk⟩ : ∃ k, lowered board hi = k + 1 := ⟨lowered board hi - 1, by omega⟩
  have hhiIndex : (hi : Int) - (board.countP fun b => decide (b < hi) : Nat) = ((k + 1 : Nat) : Int) := by
    rw [← hk, lowered]
    omega
  have hloIndex : (lo : Int) - (board.countP fun b => decide (b < lo) : Nat) = (lowered board lo : Int) := by
    rw [lowered]
    omega
  have hhalf : ((((k + 1 : Nat) : Int) - 1) * ((k + 1 : Nat) : Int)).tdiv 2 = ((k + 1).choose 2 : Nat) := by
    rw [Nat.choose_two_right, Nat.add_sub_cancel, Nat.mul_comm (k + 1)]
    have hprod : (((k + 1 : Nat) : Int) - 1) * ((k + 1 : Nat) : Int) = ((k * (k + 1) : Nat) : Int) := by
      push_cast
      ring
    rw [hprod]
    rfl
  rw [getPrivateHandIdxWithTotalCards, if_neg (by omega), List.take_of_length_le hlength.le]
  simp only [List.getD_cons_zero, List.getD_cons_succ]
  rw [hcount, hhiIndex, hloIndex, hhalf, hk]
  push_cast
  rfl

/-- The number of a hand tells its board and its private cards apart while 32 bits hold all hands. -/
theorem handNumber_inj {x x' num : Nat} (hbd : bd < num) (hbd' : bd' < num) (hx : x < g.numHoleCardPairs st)
    (hx' : x' < g.numHoleCardPairs st) (hroom : num * g.numHoleCardPairs st ≤ 4294967296)
    (heq : g.handNumber st bd x = g.handNumber st bd' x') : bd = bd' ∧ x = x' := by
  have hplain : ∀ bd x, bd < num → x < g.numHoleCardPairs st →
      g.handNumber st bd (x : Nat) = bd * g.numHoleCardPairs st + x := by
    intro bd x hbd hx
    have hmul := Nat.mul_le_mul_right (g.numHoleCardPairs st) (show bd + 1 ≤ num by omega)
    rw [Nat.succ_mul] at hmul
    unfold handNumber
    omega
  rw [hplain bd x hbd hx, hplain bd' x' hbd' hx'] at heq
  have hpos : 0 < g.numHoleCardPairs st := by omega
  have hdiv := congrArg (· / g.numHoleCardPairs st) heq
  simp only [Nat.mul_comm _ (g.numHoleCardPairs st), Nat.mul_add_div hpos, Nat.div_eq_of_lt hx, Nat.div_eq_of_lt hx',
    Nat.add_zero] at hdiv
  subst hdiv
  exact ⟨rfl, by omega⟩

end

end SGame

section

variable {existing cards result : List Int}

theorem checkCardsFrom_spec (h : checkCardsFrom existing cards = some result) :
    cards.Nodup ∧ (∀ c ∈ cards, 0 ≤ c ∧ c < 52 ∧ c ∉ existing) ∧ ∀ c, c ∈ cards ∨ c ∈ existing → c ∈ result := by
  induction cards generalizing existing with
  | nil =>
    rw [checkCardsFrom, Option.some.injEq] at h
    rw [← h]
    simp
  | cons c cards ih =>
    rw [checkCardsFrom] at h
    split at h
    · cases h
    · rename_i hrange
      split at h
      · cases h
      · rename_i hnew
        obtain ⟨hnodup, hcards, hresult⟩ := ih h
        have hcard : 0 ≤ c ∧ c < 52 := by
          unfold numCards at hrange
          omega
        refine ⟨List.nodup_cons.mpr ⟨?_, hnodup⟩, ?_, ?_⟩
        · intro hmem
          exact (hcards c hmem).2.2 (by simp)
        · intro d hd
          rcases List.mem_cons.mp hd with rfl | hd
          · exact ⟨hcard.1, hcard.2, hnew⟩
          · obtain ⟨hpos, hlt, hout⟩ := hcards d hd
            exact ⟨hpos, hlt, fun hmem => hout (List.mem_cons_of_mem _ hmem)⟩
        · rintro d (hd | hd)
          · rcases List.mem_cons.mp hd with rfl | hd
            · exact hresult d (.inr (by simp))
            · exact hresult d (.inl hd)
          · exact hresult d (.inr (List.mem_cons_of_mem _ hd))

end

/-- The cards of a situation on a street after the first, as `CheckCards` lets them pass. -/
structure Situation (st : Nat) (info : ActionInfo) : Prop where
  street : info.st = st
  first : 1 ≤ st
  last : st ≤ 3
  hole : info.hcpCards.length = 2
  board : info.boardCards.length = 5
  check : checkCards info = true

def ActionInfo.boardNats (info : ActionInfo) : List Nat := info.boardCards.map Int.toNat

def ActionInfo.holeNats (info : ActionInfo) : List Nat := info.hcpCards.map Int.toNat

section

variable {st t : Nat} {info info' : ActionInfo}

theorem streetBoardCnt_eq (hst : st ≤ 3) : streetBoardCnt.getD st 0 = SGame.holdem.numBoardCards st := by
  have hall : ∀ st ≤ 3, streetBoardCnt.getD st 0 = SGame.holdem.numBoardCards st := by decide
  exact hall st hst

/-- The hole cards and the board cards up to the street are different cards of the deck. -/
theorem Situation.cards (h : Situation st info) :
    (info.hcpCards ++ info.boardCards.take (SGame.holdem.numBoardCards st)).Nodup ∧
      ∀ c ∈ info.hcpCards ++ info.boardCards.take (SGame.holdem.numBoardCards st), 0 ≤ c ∧ c < 52 := by
  have hcheck := h.check
  rw [checkCards, Option.isSome_iff_exists] at hcheck
  obtain ⟨result, hresult⟩ := hcheck
  obtain ⟨existing, hhole, hboard⟩ := Option.bind_eq_some_iff.mp hresult
  have hstreet : info.st.toNat = st := by
    rw [h.street]
    rfl
  rw [hstreet, streetBoardCnt_eq h.last] at hboard
  rw [List.take_of_length_le h.hole.le] at hhole
  obtain ⟨hnodup, hcards, hexisting⟩ := checkCardsFrom_spec hhole
  obtain ⟨hnodup', hcards', -⟩ := checkCardsFrom_spec hboard
  refine ⟨List.nodup_append.mpr ⟨hnodup, hnodup', ?_⟩, ?_⟩
  · rintro c hc d hd rfl
    exact (hcards' c hd).2.2 (hexisting c (.inl hc))
  · intro c hc
    rcases List.mem_append.mp hc with hc | hc
    · exact ⟨(hcards c hc).1, (hcards c hc).2.1⟩
    · exact ⟨(hcards' c hc).1, (hcards' c hc).2.1⟩

/-- The same for the cards as natural numbers. -/
theorem Situation.nats (h : Situation st info) :
    (info.holeNats ++ info.boardNats.take (SGame.holdem.numBoardCards st)).Nodup ∧
      ∀ c ∈ info.holeNats ++ info.boardNats.take (SGame.holdem.numBoardCards st), c < 52 := by
  obtain ⟨hnodup, hcards⟩ := h.cards
  have hmap : info.holeNats ++ info.boardNats.take (SGame.holdem.numBoardCards st) =
      (info.hcpCards ++ info.boardCards.take (SGame.holdem.numBoardCards st)).map Int.toNat := by
    rw [List.map_append, List.map_take]
    rfl
  rw [hmap]
  refine ⟨hnodup.map_on ?_, ?_⟩
  · intro c hc d hd heq
    have := hcards c hc
    have := hcards d hd
    omega
  · intro c hc
    obtain ⟨d, hd, rfl⟩ := List.mem_map.mp hc
    have := hcards d hd
    omega

/-- Sorting the streets only sorts the flop. -/
theorem sortStreets_holdem {boardCards : List Int} (hlength : boardCards.length = 5) :
    ∃ flop, SGame.holdem.sortStreets boardCards 3 = some (flop ++ boardCards.drop 3) ∧ flop.Perm (boardCards.take 3) := by
  match boardCards, hlength with
  | [c₀, c₁, c₂, c₃, c₄], _ =>
    obtain ⟨flop, hflop⟩ := sortCards_isSome [c₀, c₁, c₂] (by simp)
    have hperm := sortCards_perm hflop
    match flop, hperm.length_eq, hflop with
    | [d₀, d₁, d₂], _, hflop =>
      have hone : ∀ c : Int, sortCards [c] = some [c] := fun _ => rfl
      refine ⟨[d₀, d₁, d₂], ?_, hperm⟩
      simp [SGame.sortStreets, SGame.numBoardCards, SGame.numCardsForStreet, SGame.holdem, hflop, hone]

/-- The sorted cards of a situation are cards that can be dealt, street by street the same ones. -/
theorem Situation.sorted (h : Situation st info) :
    ∃ tmpHole tmpBoard, sortCards info.hcpCards = some tmpHole ∧ SGame.holdem.sortStreets info.boardCards 3 = some tmpBoard ∧
      SGame.holdem.RawCards st (tmpBoard.map Int.toNat) (some (tmpHole.map Int.toNat)) ∧
      (tmpHole.map Int.toNat ++ (tmpBoard.map Int.toNat).take (SGame.holdem.numBoardCards st)).Nodup ∧
      (∀ c, c ∈ tmpHole.map Int.toNat ↔ c ∈ info.holeNats) ∧
      ∀ t < st, ∀ c, c ∈ SGame.holdem.cardsOn (tmpBoard.map Int.toNat) (t + 1) ↔
        c ∈ SGame.holdem.cardsOn info.boardNats (t + 1) := by
  obtain ⟨tmpHole, hhole⟩ := sortCards_isSome info.hcpCards (.inr (.inl h.hole))
  obtain ⟨flop, hboard, hflop⟩ := sortStreets_holdem h.board
  have hholePerm : (tmpHole.map Int.toNat).Perm info.holeNats := (sortCards_perm hhole).map _
  have hflopLength : flop.length = 3 := by
    rw [hflop.length_eq, List.length_take, h.board]
    rfl
  have hflopPerm : (flop.map Int.toNat).Perm (info.boardNats.take 3) := by
    rw [ActionInfo.boardNats, ← List.map_take]
    exact hflop.map _
  have hsplit : (flop ++ info.boardCards.drop 3).map Int.toNat = flop.map Int.toNat ++ info.boardNats.drop 3 := by
    rw [List.map_append, List.map_drop]
    rfl
  have hcards : 3 ≤ SGame.holdem.numBoardCards st :=
    SGame.numBoardCards_mono (g := SGame.holdem) h.first
  have hboardPerm : ((flop ++ info.boardCards.drop 3).map Int.toNat |>.take (SGame.holdem.numBoardCards st)).Perm
      (info.boardNats.take (SGame.holdem.numBoardCards st)) := by
    obtain ⟨k, hk⟩ := Nat.exists_eq_add_of_le hcards
    have hraw : info.boardNats.take (3 + k) = info.boardNats.take 3 ++ (info.boardNats.drop 3).take k := List.take_add
    rw [hsplit, hk, hraw, List.take_append, List.length_map, hflopLength, Nat.add_sub_cancel_left,
      List.take_of_length_le (by rw [List.length_map]; omega)]
    exact hflopPerm.append (List.Perm.refl _)
  obtain ⟨hnodup, hlt⟩ := h.nats
  have hall := hholePerm.append hboardPerm
  refine ⟨tmpHole, _, hhole, hboard, ⟨?_, ?_, ?_, ?_⟩, hall.nodup_iff.mpr hnodup, fun c => hholePerm.mem_iff, ?_⟩
  · have hlast := SGame.numBoardCards_mono (g := SGame.holdem) h.last
    rw [List.length_map, List.length_append, hflopLength, List.length_drop, h.board]
    exact hlast
  · exact hboardPerm.nodup_iff.mpr (List.nodup_append.mp hnodup).2.1
  · intro c hc
    exact hlt c (List.mem_append_right _ (hboardPerm.mem_iff.mp hc))
  · rintro hole ⟨⟩
    refine ⟨?_, ?_⟩
    · rw [List.length_map, (sortCards_perm hhole).length_eq, h.hole]
      rfl
    · intro c hc
      exact hlt c (List.mem_append_left _ (hholePerm.mem_iff.mp hc))
  · intro t _ c
    cases t with
    | zero =>
      rw [hsplit]
      have hfirst : ∀ board, SGame.holdem.cardsOn board (0 + 1) = board.take 3 := fun _ => rfl
      rw [hfirst, hfirst, List.take_append_of_le_length (by rw [List.length_map]; omega),
        List.take_of_length_le (by rw [List.length_map]; omega)]
      exact hflopPerm.mem_iff
    | succ t =>
      have hlater : 3 ≤ SGame.holdem.numBoardCards (t + 1) :=
        SGame.numBoardCards_mono (g := SGame.holdem) (show 1 ≤ t + 1 by omega)
      obtain ⟨k, hk⟩ := Nat.exists_eq_add_of_le hlater
      rw [hsplit, SGame.cardsOn, SGame.cardsOn, Nat.add_sub_cancel, hk, List.drop_append, List.length_map, hflopLength,
        Nat.add_sub_cancel_left, List.drop_of_length_le (by rw [List.length_map]; omega), List.nil_append, List.drop_drop]

/-- The hand index of a situation, with the canonical cards and the board that it comes from. -/
structure Numbered (tree : PCardTree) (st : Nat) (info : ActionInfo) (board hole canon : List Nat) (hi lo bd : Nat) : Prop where
  raw : SGame.holdem.RawCards st board (some hole)
  nodup : hole.Nodup
  holeCards : ∀ c, c ∈ hole ↔ c ∈ info.holeNats
  boardCards : ∀ t < st, ∀ c, c ∈ SGame.holdem.cardsOn board (t + 1) ↔ c ∈ SGame.holdem.cardsOn info.boardNats (t + 1)
  canonical : SGame.holdem.canonicalizeCards board (some hole) st = some (canon, some [hi, lo])
  canonNodup : canon.Nodup
  hiOut : hi ∉ canon
  loOut : lo ∉ canon
  falling : lo < hi
  room : (lowered canon hi).choose 2 + lowered canon lo < SGame.holdem.numHoleCardPairs st
  listed : bd < (SGame.holdem.streetBoards st).length
  found : tree.boards st bd = canon
  index : SGame.holdem.handIndex (some (tree.createLookup SGame.holdem)) info =
    some (.ok (SGame.holdem.handNumber st bd ((lowered canon hi).choose 2 + lowered canon lo : Nat)))

theorem Situation.numbered (h : Situation st info) {tree : PCardTree} (hindexed : SGame.holdem.Indexed tree) :
    ∃ board hole canon hi lo bd, Numbered tree st info board hole canon hi lo bd := by
  have hg := SGame.holdem_playable
  have hst : st ≤ SGame.holdem.maxStreet := h.last
  obtain ⟨tmpHole, tmpBoard, hhole, hboard, hraw, hnodup, hholeMem, hboardMem⟩ := h.sorted
  obtain ⟨hholeNodup, -, hdisjoint⟩ := List.nodup_append.mp hnodup
  have hm := SGame.suitMapping_perm hg hraw hst
  obtain ⟨canon, sg, hcanon, hmem, hperm, -⟩ := SGame.canonStreets_listed hg hraw hst (le_refl st)
  obtain ⟨canonHole, hresult, hcanonHole⟩ := SGame.canonicalizeCards_eq hg hraw hcanon
  obtain ⟨sorted, hsorted, hsortedPerm, hsortedFall⟩ := hcanonHole _ rfl
  have hfall := hsortedFall hholeNodup hm
  have hlength : sorted.length = 2 := by
    rw [hsortedPerm.length_eq, List.length_map, (hraw.hole _ rfl).1]
    rfl
  have hcanonNodup : canon.Nodup := hperm.nodup_iff.mpr (hm.nodup_map hraw.nodup)
  have hcanonLength : canon.length = SGame.holdem.numBoardCards st := (SGame.canonStreets_cardsOn hraw hst hcanon).1
  have hout : ∀ c ∈ sorted, c ∉ canon := by
    intro c hc hold
    obtain ⟨d, hd, rfl⟩ := List.mem_map.mp (hsortedPerm.mem_iff.mp hc)
    obtain ⟨e, he, heq⟩ := List.mem_map.mp (hperm.mem_iff.mp hold)
    exact hdisjoint d hd e he (hm.mapSuit_inj heq).symm
  have hdeck : ∀ c ∈ sorted, c < 52 := by
    intro c hc
    obtain ⟨d, hd, rfl⟩ := List.mem_map.mp (hsortedPerm.mem_iff.mp hc)
    exact hm.mapSuit_lt ((hraw.hole _ rfl).2 d hd)
  obtain ⟨bd, hbd, hget⟩ := List.getElem_of_mem hmem
  have hnode := hindexed.nodes st hst bd hbd
  rw [List.getElem?_eq_getElem hbd, hget, Option.some.injEq, Prod.mk.injEq] at hnode
  match sorted, hlength with
  | [hi, lo], _ =>
    rw [Option.mem_def] at hsorted
    rw [hsorted] at hresult
    have hlt : lo < hi := (List.pairwise_cons.mp hfall).1 lo (by simp)
    have hhi := hout hi (by simp)
    have hlo := hout lo (by simp)
    have htop : lowered canon 52 = 52 - SGame.holdem.numBoardCards st := by
      have hcount : (canon.countP fun b => decide (b < 52)) = canon.length := by
        rw [List.countP_eq_length]
        intro c hc
        obtain ⟨d, hd, rfl⟩ := List.mem_map.mp (hperm.mem_iff.mp hc)
        exact decide_eq_true (hm.mapSuit_lt (hraw.cards d hd))
      rw [lowered, hcount, hcanonLength]
    have hroom : (lowered canon hi).choose 2 + lowered canon lo < SGame.holdem.numHoleCardPairs st := by
      have hbelow := lowered_lt hcanonNodup (hdeck hi (by simp)) hhi
      rw [htop] at hbelow
      rw [SGame.numHoleCardPairs_eq rfl]
      exact pair_lt (lowered_lt hcanonNodup hlt hlo) hbelow
    refine ⟨_, _, canon, hi, lo, bd, hraw, hholeNodup, hholeMem, hboardMem, hresult, hcanonNodup, hhi, hlo, hlt, hroom, hbd,
      hnode.1.symm, ?_⟩
    have hlookup := hindexed.lookupBoardSBot hg hst hbd
    have hstreet : info.st.toNat = st := by
      rw [h.street]
      rfl
    have hfirst := h.first
    rw [SGame.handIndex, hhole, Option.bind_some, hboard, Option.bind_some, if_neg (by rw [h.street]; omega), hstreet,
      hresult, Option.map_some]
    dsimp only
    rw [← hnode.1] at hlookup
    rw [hlookup, Option.getD_some, SGame.getPrivateHandIdx_eq rfl hcanonLength hcanonNodup hlo hlt]
    rfl

/-- The hands of every street fit into 32 bits. -/
theorem hands_fit (hfirst : 1 ≤ st) (hlast : st ≤ 3) :
    ∃ num, (SGame.holdem.streetBoards st).length ≤ num ∧ num * SGame.holdem.numHoleCardPairs st ≤ 4294967296 := by
  have hcases : st = 1 ∨ st = 2 ∨ st = 3 := by omega
  rcases hcases with rfl | rfl | rfl
  · exact ⟨1755, SGame.flops_length_le, by decide⟩
  · exact ⟨72995, SGame.turnBoards_length_le, by decide⟩
  · exact ⟨3503760, SGame.riverBoards_length_le, by decide⟩

theorem SGame.SameUpToSuits.congr {g : SGame} {board board₁ board' board₁' hole hole₁ hole' hole₁' : List Nat}
    (h : g.SameUpToSuits st board hole board' hole') (hhole : ∀ c, c ∈ hole ↔ c ∈ hole₁) (hhole' : ∀ c, c ∈ hole' ↔ c ∈ hole₁')
    (hboard : ∀ t < st, ∀ c, c ∈ g.cardsOn board (t + 1) ↔ c ∈ g.cardsOn board₁ (t + 1))
    (hboard' : ∀ t < st, ∀ c, c ∈ g.cardsOn board' (t + 1) ↔ c ∈ g.cardsOn board₁' (t + 1)) :
    g.SameUpToSuits st board₁ hole₁ board₁' hole₁' := by
  obtain ⟨m, hm, hcards, hstreets⟩ := h
  refine ⟨m, hm, ?_, ?_⟩
  · intro c
    rw [← hhole', hcards, List.mem_map, List.mem_map]
    simp only [hhole]
  · intro t ht c
    rw [← hboard' t ht, hstreets t ht, List.mem_map, List.mem_map]
    simp only [hboard t ht]

/-- Two situations on a street have one hand index exactly where a permutation of the suits carries one into
the other, up to the order of the hole cards and of the cards of each street. -/
theorem handIndex_eq_iff {tree : PCardTree} (htree : SGame.holdem.create = some tree) (h : Situation st info)
    (h' : Situation st info') :
    ∃ k k', SGame.holdem.handIndex (some (tree.createLookup SGame.holdem)) info = some (.ok k) ∧
      SGame.holdem.handIndex (some (tree.createLookup SGame.holdem)) info' = some (.ok k') ∧
      (k = k' ↔ SGame.holdem.SameUpToSuits st info.boardNats info.holeNats info'.boardNats info'.holeNats) := by
  have hg := SGame.holdem_playable
  have hst : st ≤ SGame.holdem.maxStreet := h.last
  obtain ⟨-, -, tree', -, -, -, htree', -, hindexed⟩ := SGame.create_indexed hg.toDealable
  rw [Option.some.inj (htree'.symm.trans htree)] at hindexed
  obtain ⟨board, hole, canon, hi, lo, bd, hn⟩ := h.numbered hindexed
  obtain ⟨board', hole', canon', hi', lo', bd', hn'⟩ := h'.numbered hindexed
  refine ⟨_, _, hn.index, hn'.index, ?_⟩
  constructor
  · intro heq
    obtain ⟨num, hnum, hroom⟩ := hands_fit h.first h.last
    obtain ⟨hbd, hpair⟩ := SGame.handNumber_inj (hn.listed.trans_le hnum) (hn'.listed.trans_le hnum) hn.room hn'.room hroom heq
    have hcanon : canon' = canon := by rw [← hn'.found, ← hn.found, hbd]
    rw [hcanon] at hn' hpair
    have hlowered := lowered_lt hn.canonNodup hn.falling hn.loOut
    have hlowered' := lowered_lt hn'.canonNodup hn'.falling hn'.loOut
    obtain ⟨hhi, hlo⟩ := pair_inj hlowered hlowered' hpair
    have hhi := lowered_inj hn.canonNodup hn.hiOut hn'.hiOut hhi
    have hlo := lowered_inj hn.canonNodup hn.loOut hn'.loOut hlo
    have hcanonical := hn'.canonical
    rw [← hhi, ← hlo] at hcanonical
    have hsame := SGame.same_of_canonicalizeCards hg hn.raw hn'.raw hst hn.canonical hcanonical
    exact hsame.congr hn.holeCards hn'.holeCards hn.boardCards hn'.boardCards
  · intro hsame
    have hsame := hsame.congr (fun c => (hn.holeCards c).symm) (fun c => (hn'.holeCards c).symm)
      (fun t ht c => (hn.boardCards t ht c).symm) fun t ht c => (hn'.boardCards t ht c).symm
    have hcanonical := SGame.canonicalizeCards_of_same hg rfl hn.raw hn'.raw hst hn.nodup hn'.nodup hsame
    rw [hn.canonical, hn'.canonical, Option.some.injEq, Prod.mk.injEq, Option.some.injEq, List.cons.injEq,
      List.cons.injEq] at hcanonical
    obtain ⟨rfl, rfl, rfl, -⟩ := hcanonical
    have hbd := hindexed.board_inj hg.toDealable hst hn.listed hn'.listed (hn.found.trans hn'.found.symm)
    rw [hbd]

/-- A river and the same river with two suits swapped and its cards in another order. -/
theorem handIndex_suits_swapped :
    ∃ tree, SGame.holdem.create = some tree ∧
      ∃ k k', SGame.holdem.handIndex (some (tree.createLookup SGame.holdem)) ⟨[50, 31, 2, 17, 8], [49, 48], 3, [], 0, 0⟩ =
          some (.ok k) ∧
        SGame.holdem.handIndex (some (tree.createLookup SGame.holdem)) ⟨[31, 2, 50, 16, 9], [49, 48], 3, [], 0, 0⟩ =
          some (.ok k') ∧
        (k = k' ↔ SGame.holdem.SameUpToSuits 3 [50, 31, 2, 17, 8] [49, 48] [31, 2, 50, 16, 9] [49, 48]) := by
  obtain ⟨-, -, tree, -, -, -, htree, -, -⟩ := SGame.create_indexed SGame.holdem_playable.toDealable
  refine ⟨tree, htree, handIndex_eq_iff htree ⟨rfl, ?_, ?_, rfl, rfl, ?_⟩ ⟨rfl, ?_, ?_, rfl, rfl, ?_⟩⟩
  all_goals decide

end

end MasterAI
