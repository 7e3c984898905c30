import MasterAI.FinishedHand
import MasterAI.ResultScores

namespace MasterAI

namespace RunGame

/-- The cards of a notification before the first that is no card. -/
def leadingCards : List Int → List Nat
  | [] => []
  | card :: rest =>
    match apgCardToLocal card with
    | none => []
    | some c => c :: leadingCards rest

/-- The cards before the first bad one are already where they would be stored. -/
def InPlace (place : Nat) (cards : List Int) (stored : Nat → Nat) : Prop :=
  leadingCards cards = (List.range (leadingCards cards).length).map fun j => stored (place + j)

instance (place : Nat) (cards : List Int) (stored : Nat → Nat) : Decidable (InPlace place cards stored) :=
  inferInstanceAs (Decidable (_ = _))

/-- The cards that `DoSaveCards` stores for the round are those of the hand already. -/
def RoundInPlace (r : RunGame) (pb : CardsNotify) : Prop :=
  if pb.round = 0 ∧ pb.robotCards.length = 2 then
    InPlace 0 pb.robotCards (r.state.holeCards r.matchState.viewingPlayer)
  else if pb.round = 1 ∧ pb.boardCards.length = 3 then InPlace 0 pb.boardCards r.state.boardCards
  else if pb.round = 2 ∧ pb.boardCards.length = 1 then InPlace 3 pb.boardCards r.state.boardCards
  else if pb.round = 3 ∧ pb.boardCards.length = 1 then InPlace 4 pb.boardCards r.state.boardCards
  else True

def otherPlayer (r : RunGame) : Nat := (r.matchState.viewingPlayer + 1) % 2

def PlayerCardsValid (pb : EndNotify) : Prop := ∀ c ∈ pb.playerCards.take 2, (apgCardToLocal c).isSome

def BoardCardsValid (pb : EndNotify) : Prop := ∀ c ∈ pb.boardCards.take 5, (apgCardToLocal c).isSome

def PlayerCardsInPlace (r : RunGame) (pb : EndNotify) : Prop :=
  InPlace 0 (pb.playerCards.take 2) (r.state.holeCards r.otherPlayer)

def BoardCardsInPlace (r : RunGame) (pb : EndNotify) : Prop :=
  InPlace 0 (pb.boardCards.take 5) r.state.boardCards

/-- The session with the cards of the end of the hand. -/
def dealt (r : RunGame) (pb : EndNotify) : RunGame :=
  ((r.storeHoleCards r.otherPlayer (pb.playerCards.take 2)).1.storeBoardCards 0 (pb.boardCards.take 5)).1

/-- The match and the scores of a session are as before. -/
structure Untouched (r t : RunGame) : Prop extends SameScores r t where
  matchState : t.matchState = r.matchState
  robotResult : t.robotResult = r.robotResult

/-- What a failing `DoFinished` would write is there already: the cards before a bad one, and where
the history store refuses the hand, all cards and a value of zero. -/
structure EndInPlace (conf : Conf) (env : Env) (g : Game) (r : RunGame) (pb : EndNotify) : Prop where
  badPlayerCard : ¬PlayerCardsValid pb → r.PlayerCardsInPlace pb
  badBoardCard : PlayerCardsValid pb → ¬BoardCardsValid pb → r.PlayerCardsInPlace pb ∧ r.BoardCardsInPlace pb
  historyRefused : PlayerCardsValid pb → BoardCardsValid pb → r.historyFull conf env = true → ∀ value,
    valueOfState conf.rankCardset g (r.dealt pb).state r.matchState.viewingPlayer = some value →
      (r.PlayerCardsInPlace pb ∧ r.BoardCardsInPlace pb) ∧ r.robotResult = 0 ∧ truncate value = 0

section

variable {conf : Conf} {env : Env} {r t : RunGame} {g : Game} {place : Nat} {cards : List Int} {stored : Nat → Nat}

/-- A card is stored in every place that a card before the first bad one is meant for. -/
theorem storeApgCards_apply (i : Nat) :
    (storeApgCards place cards stored).1 i =
      if place ≤ i then ((leadingCards cards)[i - place]?).getD (stored i) else stored i := by
  induction cards generalizing place stored with
  | nil => simp [storeApgCards, leadingCards]
  | cons card rest ih =>
    unfold storeApgCards leadingCards
    cases hc : apgCardToLocal card with
    | none => simp
    | some c =>
      dsimp only
      rw [ih]
      rcases Nat.lt_trichotomy i place with hlt | rfl | hgt
      · rw [if_neg (by omega), if_neg (by omega), Function.update_of_ne (by omega)]
      · rw [if_neg (by omega), if_pos le_rfl, Function.update_self, Nat.sub_self, List.getElem?_cons_zero, Option.getD_some]
      · rw [if_pos (by omega), if_pos (by omega), Function.update_of_ne (by omega),
          show i - place = (i - (place + 1)) + 1 by omega, List.getElem?_cons_succ]

theorem storeApgCards_eq_iff : (storeApgCards place cards stored).1 = stored ↔ InPlace place cards stored := by
  unfold InPlace
  constructor
  · intro h
    apply List.ext_getElem?
    intro j
    have hj := congrFun h (place + j)
    rw [storeApgCards_apply, if_pos (Nat.le_add_right _ _), Nat.add_sub_cancel_left] at hj
    by_cases hlt : j < (leadingCards cards).length
    · rw [List.getElem?_eq_getElem hlt, Option.getD_some] at hj
      rw [List.getElem?_eq_getElem hlt, List.getElem?_map, List.getElem?_range hlt, Option.map_some, hj]
    · rw [List.getElem?_eq_none (not_lt.mp hlt), List.getElem?_eq_none (by simpa using hlt)]
  · intro h
    funext i
    rw [storeApgCards_apply]
    split
    next hle =>
      by_cases hlt : i - place < (leadingCards cards).length
      · rw [h, List.getElem?_map, List.getElem?_range hlt, Option.map_some, Option.getD_some,
          Nat.add_sub_cancel' hle]
      · rw [List.getElem?_eq_none (not_lt.mp hlt), Option.getD_none]
    next => rfl

theorem storeHoleCards_matchState_iff {p : Nat} :
    (r.storeHoleCards p cards).1.matchState = r.matchState ↔ InPlace 0 cards (r.state.holeCards p) := by
  rw [← storeApgCards_eq_iff]
  constructor
  · intro h
    have hp := congrFun (congrArg (fun m : MatchState => m.state.holeCards) h) p
    simpa [storeHoleCards, withState, state] using hp
  · intro h
    have hstored : (r.storeHoleCards p cards).1.matchState = { r.matchState with state := { r.state with
        holeCards := Function.update r.state.holeCards p (storeApgCards 0 cards (r.state.holeCards p)).1 } } := rfl
    rw [hstored, h, Function.update_eq_self]
    rfl

theorem storeBoardCards_matchState_iff :
    (r.storeBoardCards place cards).1.matchState = r.matchState ↔ InPlace place cards r.state.boardCards := by
  rw [← storeApgCards_eq_iff]
  constructor
  · exact fun h => congrArg (fun m : MatchState => m.state.boardCards) h
  · intro h
    have hstored : (r.storeBoardCards place cards).1.matchState = { r.matchState with state := { r.state with
        boardCards := (storeApgCards place cards r.state.boardCards).1 } } := rfl
    rw [hstored, h]
    rfl

theorem dealt_matchState_iff {pb : EndNotify} :
    (r.dealt pb).matchState = r.matchState ↔ r.PlayerCardsInPlace pb ∧ r.BoardCardsInPlace pb := by
  have hboard : (r.storeHoleCards r.otherPlayer (pb.playerCards.take 2)).1.state.boardCards = r.state.boardCards := rfl
  constructor
  · intro h
    have hhole := congrFun (congrArg (fun m : MatchState => m.state.holeCards) h) r.otherPlayer
    have hcards := congrArg (fun m : MatchState => m.state.boardCards) h
    refine ⟨storeApgCards_eq_iff.mp ?_, storeApgCards_eq_iff.mp hcards⟩
    simpa [dealt, storeBoardCards, storeHoleCards, withState, state] using hhole
  · rintro ⟨hhole, hcards⟩
    have hsame := storeHoleCards_matchState_iff.mpr hhole
    rw [BoardCardsInPlace, ← hboard] at hcards
    exact (storeBoardCards_matchState_iff.mpr hcards).trans hsame

theorem storeRoundCards_matchState_iff {pb : CardsNotify} :
    (r.storeRoundCards pb).1.matchState = r.matchState ↔ r.RoundInPlace pb := by
  unfold storeRoundCards RoundInPlace
  dsimp only
  split
  · exact storeHoleCards_matchState_iff
  · split
    · exact storeBoardCards_matchState_iff
    · split
      · exact storeBoardCards_matchState_iff
      · split
        · exact storeBoardCards_matchState_iff
        · exact iff_of_true rfl trivial

theorem storeRoundCards_scores (pb : CardsNotify) :
    SameScores r (r.storeRoundCards pb).1 ∧ (r.storeRoundCards pb).1.robotResult = r.robotResult := by
  refine ⟨storeRoundCards_sameScores r pb, ?_⟩
  unfold storeRoundCards
  dsimp only
  split_ifs <;> rfl

/-- A failing `DoSaveCards` leaves the match as it was exactly when it refuses the round or the number
of cards, or the cards it stores before it fails are in place. -/
theorem doSaveCards_untouched_iff (pb : CardsNotify) :
    ((r.doSaveCards conf pb).2 ≠ 0 → Untouched r (r.doSaveCards conf pb).1) ↔
      pb.round ≠ r.state.round ∨ (RoundCards pb ∧ (conf.getGame r.gameType).isSome) ∨ r.RoundInPlace pb := by
  have hmatch := @storeRoundCards_matchState_iff { r with tRobotRoundSeq := 0 } pb
  obtain ⟨hsame, hresult⟩ := storeRoundCards_scores (r := { r with tRobotRoundSeq := 0 }) pb
  have haccepts := storeRoundCards_accepts_iff { r with tRobotRoundSeq := 0 } pb
  have hstored : ∀ {s : RunGame}, s = ({ r with tRobotRoundSeq := 0 }.storeRoundCards pb).1 →
      (Untouched r s ↔ r.RoundInPlace pb) := by
    rintro s rfl
    exact ⟨fun h => hmatch.mp h.matchState,
      fun h => ⟨⟨hsame.robotScore, hsame.playerScore, hsame.alreadySaveHistory⟩, hmatch.mpr h, hresult⟩⟩
  unfold doSaveCards
  dsimp only
  by_cases hround : pb.round ≠ r.state.round
  · rw [if_pos hround]
    exact iff_of_true (fun _ => ⟨SameScores.refl r, rfl, rfl⟩) (Or.inl hround)
  · rw [if_neg hround]
    by_cases hcode : ({ r with tRobotRoundSeq := 0 }.storeRoundCards pb).2 = 0
    · rw [if_neg (not_not.mpr hcode)]
      cases hg : conf.getGame r.gameType with
      | none => simpa [hround, haccepts.mp hcode] using hstored rfl
      | some g => simp [hcode, haccepts.mp hcode]
    · rw [if_pos hcode]
      have hbad : ¬RoundCards pb := fun h => hcode (haccepts.mpr h)
      simpa [hround, hbad, hcode] using hstored rfl

theorem storeHoleCards_accepts_iff {p : Nat} :
    (r.storeHoleCards p cards).2 = true ↔ ∀ c ∈ cards, (apgCardToLocal c).isSome := storeApgCards_accepts_iff _ _ _

theorem storeBoardCards_accepts_iff :
    (r.storeBoardCards place cards).2 = true ↔ ∀ c ∈ cards, (apgCardToLocal c).isSome := storeApgCards_accepts_iff _ _ _

theorem untouched_iff (hscores : SameScores r t) (hresult : t.robotResult = r.robotResult) :
    Untouched r t ↔ t.matchState = r.matchState :=
  ⟨fun h => h.matchState, fun h => ⟨hscores, h, hresult⟩⟩

/-- A score moves back to itself only by a value of zero. -/
theorem wrapInt32_add_eq_iff {x v : Int} (hx : FitsInt32 x) (hv : FitsInt32 v) : wrapInt32 (x + v) = x ↔ v = 0 := by
  unfold FitsInt32 int32Max at hx hv
  simp only [wrapInt32, Int.bmod_def]
  omega

theorem truncate_fits (q : ℚ) : FitsInt32 (truncate q) := wrapInt32_fits _

theorem scored_untouched_iff {pb : EndNotify} {value : ℚ} (hrobot : FitsInt32 r.robotScore)
    (hplayer : FitsInt32 r.playerScore) :
    Untouched r (((r.dealt pb).score (truncate value)).saveHistory conf env).1 ↔
      (r.PlayerCardsInPlace pb ∧ r.BoardCardsInPlace pb) ∧ r.robotResult = 0 ∧ truncate value = 0 := by
  obtain ⟨cnt, hcnt⟩ := saveHistory_eq conf env ((r.dealt pb).score (truncate value))
  have hzero := wrapInt32_add_eq_iff hrobot (truncate_fits value)
  rw [hcnt, ← dealt_matchState_iff]
  constructor
  · intro h
    have hvalue : truncate value = 0 := hzero.mp h.robotScore
    exact ⟨h.matchState, hvalue ▸ h.robotResult.symm, hvalue⟩
  · rintro ⟨hmatch, hresult, hvalue⟩
    refine ⟨⟨hzero.mpr hvalue, ?_, rfl⟩, hmatch, hvalue.trans hresult.symm⟩
    change wrapInt32 (r.playerScore - truncate value) = r.playerScore
    rw [hvalue, Int.sub_zero, wrapInt32_eq hplayer]

section

variable {pb : EndNotify} {value : ℚ}

theorem doFinished_badPlayerCard (hsaved : ¬r.alreadySaveHistory = true) (hfin : r.state.finished = true)
    (hg : conf.getGame r.gameType = some g) (hcards : ¬PlayerCardsValid pb) :
    r.doFinished conf env pb = some ((r.storeHoleCards r.otherPlayer (pb.playerCards.take 2)).1, -102) := by
  unfold doFinished
  simp only [if_neg hsaved, if_neg (not_not.mpr hfin), hg]
  exact if_pos (mt storeHoleCards_accepts_iff.mp hcards)

theorem doFinished_badBoardCard (hsaved : ¬r.alreadySaveHistory = true) (hfin : r.state.finished = true)
    (hg : conf.getGame r.gameType = some g) (hcards : PlayerCardsValid pb) (hboard : ¬BoardCardsValid pb) :
    r.doFinished conf env pb = some (r.dealt pb, -103) := by
  unfold doFinished
  simp only [if_neg hsaved, if_neg (not_not.mpr hfin), hg]
  exact (if_neg (not_not.mpr (storeHoleCards_accepts_iff.mpr hcards))).trans
    (if_pos (mt storeBoardCards_accepts_iff.mp hboard))

/-- `DoFinished` of a hand with valid cards. -/
theorem doFinished_valued (hsaved : ¬r.alreadySaveHistory = true) (hfin : r.state.finished = true)
    (hg : conf.getGame r.gameType = some g) (hcards : PlayerCardsValid pb) (hboard : BoardCardsValid pb) :
    r.doFinished conf env pb =
      (valueOfState conf.rankCardset g (r.dealt pb).state r.matchState.viewingPlayer).map fun value =>
        let saved := (((r.dealt pb).score (truncate value)).saveHistory conf env).1
        if r.historyFull conf env = true then (saved, -112) else ({ saved with alreadySaveHistory := true }, 0) := by
  unfold doFinished
  simp only [if_neg hsaved, if_neg (not_not.mpr hfin), hg]
  refine (if_neg (not_not.mpr (storeHoleCards_accepts_iff.mpr hcards))).trans
    ((if_neg (not_not.mpr (storeBoardCards_accepts_iff.mpr hboard))).trans ?_)
  split
  next hnone =>
    have hnone : valueOfState conf.rankCardset g (r.dealt pb).state r.matchState.viewingPlayer = none := hnone
    rw [hnone]
    rfl
  next value hvalue =>
    have hvalue : valueOfState conf.rankCardset g (r.dealt pb).state r.matchState.viewingPlayer = some value := hvalue
    have hresult := saveHistory_result conf env ((r.dealt pb).score (truncate value))
    have hfull : ((r.dealt pb).score (truncate value)).historyFull conf env = r.historyFull conf env := rfl
    rw [hfull] at hresult
    rw [hvalue, Option.map_some]
    change (if ¬(((r.dealt pb).score (truncate value)).saveHistory conf env).2 = true then _ else _) = _
    rw [hresult]
    cases r.historyFull conf env with
    | false => rfl
    | true => rfl

/-- A failing `DoFinished` leaves the match and the scores as they were exactly when the hand is not
scored at all or what it writes is in place. -/
theorem doFinished_untouched_iff (hrobot : FitsInt32 r.robotScore) (hplayer : FitsInt32 r.playerScore) :
    (∀ t code, r.doFinished conf env pb = some (t, code) → code ≠ 0 → Untouched r t) ↔
      r.alreadySaveHistory = true ∨ r.state.finished = false ∨
        ∀ g, conf.getGame r.gameType = some g → r.EndInPlace conf env g pb := by
  by_cases hsaved : r.alreadySaveHistory = true
  · refine iff_of_true ?_ (Or.inl hsaved)
    intro t code h hcode
    rw [doFinished, if_pos hsaved] at h
    cases h
    exact absurd rfl hcode
  by_cases hfin : r.state.finished = true
  swap
  · refine iff_of_true ?_ (Or.inr (Or.inl (Bool.eq_false_iff.mpr hfin)))
    intro t code h _
    rw [doFinished, if_neg hsaved, if_pos hfin] at h
    cases h
    exact ⟨SameScores.refl r, rfl, rfl⟩
  cases hg : conf.getGame r.gameType with
  | none =>
    refine iff_of_true ?_ (Or.inr (Or.inr fun g hg' => by cases hg'))
    intro t code h _
    rw [doFinished, if_neg hsaved, if_neg (not_not.mpr hfin), hg] at h
    cases h
    exact ⟨SameScores.refl r, rfl, rfl⟩
  | some g =>
    simp only [hsaved, hfin, Bool.true_eq_false, Bool.false_eq_true, false_or, Option.some.injEq, forall_eq']
    by_cases hcards : PlayerCardsValid pb
    swap
    · have hstored : Untouched r (r.storeHoleCards r.otherPlayer (pb.playerCards.take 2)).1 ↔ r.PlayerCardsInPlace pb := by
        rw [untouched_iff (by exact ⟨rfl, rfl, rfl⟩) (by rfl)]
        exact storeHoleCards_matchState_iff
      rw [doFinished_badPlayerCard hsaved hfin hg hcards]
      constructor
      · intro h
        exact ⟨fun _ => hstored.mp (h _ _ rfl (by decide)), fun hvalid => absurd hvalid hcards,
          fun hvalid => absurd hvalid hcards⟩
      · rintro h t code ⟨⟩ -
        exact hstored.mpr (h.badPlayerCard hcards)
    by_cases hboard : BoardCardsValid pb
    swap
    · have hstored : Untouched r (r.dealt pb) ↔ r.PlayerCardsInPlace pb ∧ r.BoardCardsInPlace pb := by
        rw [untouched_iff (by exact ⟨rfl, rfl, rfl⟩) (by rfl)]
        exact dealt_matchState_iff
      rw [doFinished_badBoardCard hsaved hfin hg hcards hboard]
      constructor
      · intro h
        exact ⟨fun hbad => absurd hcards hbad, fun _ _ => hstored.mp (h _ _ rfl (by decide)),
          fun _ hvalid => absurd hvalid hboard⟩
      · rintro h t code ⟨⟩ -
        exact hstored.mpr (h.badBoardCard hcards hboard)
    rw [doFinished_valued hsaved hfin hg hcards hboard]
    have hscored := fun value : ℚ => @scored_untouched_iff conf env r pb value hrobot hplayer
    constructor
    · intro h
      refine ⟨fun hbad => absurd hcards hbad, fun _ hbad => absurd hboard hbad, fun _ _ hfull value hvalue => ?_⟩
      refine (hscored value).mp (h _ (-112) ?_ (by decide))
      rw [hvalue, Option.map_some, if_pos hfull]
    · intro h t code hresult hcode
      obtain ⟨value, hvalue, hresult⟩ := Option.map_eq_some_iff.mp hresult
      split at hresult
      next hfull =>
        cases hresult
        exact (hscored value).mpr (h.historyRefused hcards hboard hfull value hvalue)
      next =>
        cases hresult
        exact absurd rfl hcode

end

end

/-- Which failing notifications leave the match and the scores as they were. -/
theorem failed_notify_untouched_iff (conf : Conf) (env : Env) (r : RunGame) (hrobot : FitsInt32 r.robotScore)
    (hplayer : FitsInt32 r.playerScore) :
    (∀ pb, ((r.doSaveCards conf pb).2 ≠ 0 → Untouched r (r.doSaveCards conf pb).1) ↔
      pb.round ≠ r.state.round ∨ (RoundCards pb ∧ (conf.getGame r.gameType).isSome) ∨ r.RoundInPlace pb) ∧
    ∀ pb, (∀ t code, r.doFinished conf env pb = some (t, code) → code ≠ 0 → Untouched r t) ↔
      r.alreadySaveHistory = true ∨ r.state.finished = false ∨
        ∀ g, conf.getGame r.gameType = some g → r.EndInPlace conf env g pb :=
  ⟨fun pb => doSaveCards_untouched_iff pb, fun _ => doFinished_untouched_iff hrobot hplayer⟩

/-- The session of a hand just begun, and a second hole card that is no card. -/
def dealtTable : RunGame := (tableRun (playerButton 1) []).2.get (by decide +kernel)

def badSecondCard (first : Int) : CardsNotify := ⟨0, [first, 0x00], []⟩

theorem dealtTable_badSecondCard : (dealtTable.doSaveCards tableConf (badSecondCard 0x12)).2 = -102 ∧
    Untouched dealtTable (dealtTable.doSaveCards tableConf (badSecondCard 0x12)).1 := by
  have hcode : (dealtTable.doSaveCards tableConf (badSecondCard 0x12)).2 = -102 := by decide +kernel
  have huntouched := (failed_notify_untouched_iff tableConf (callingEnv 1) dealtTable
    ⟨by decide +kernel, by decide +kernel⟩ ⟨by decide +kernel, by decide +kernel⟩).1 (badSecondCard 0x12)
  have hplace : dealtTable.RoundInPlace (badSecondCard 0x12) := by
    unfold RoundInPlace
    decide +kernel
  exact ⟨hcode, huntouched.mpr (.inr (.inr hplace)) (by rw [hcode]; decide)⟩

/-- A session whose history is at its bound. -/
def crowdedHand : RunGame := { foldedHand with historyCnt := 100001 }

/-- A first card is stored before the second is found bad, the cards of the player before the bad card of
the board, and the scores before the history store refuses the hand. -/
theorem failed_notify_overwrites :
    (¬∀ pb, (dealtTable.doSaveCards tableConf pb).2 ≠ 0 → Untouched dealtTable (dealtTable.doSaveCards tableConf pb).1) ∧
    (¬∀ pb t code, foldedHand.doFinished tableConf (callingEnv 2) pb = some (t, code) → code ≠ 0 →
      Untouched foldedHand t) ∧
    ¬∀ pb t code, crowdedHand.doFinished tableConf (fullEnv 2) pb = some (t, code) → code ≠ 0 →
      Untouched crowdedHand t := by
  refine ⟨fun h => ?_, fun h => ?_, fun h => ?_⟩
  · have hcard := congrArg (fun m => m.state.holeCards 0 0) (h (badSecondCard 0x13) (by decide +kernel)).matchState
    exact absurd hcard (by decide +kernel)
  · have hresult : (foldedHand.doFinished tableConf (callingEnv 2) ⟨1, 1, [0x02, 0x13], [0x00]⟩).map
        (fun p : RunGame × Int => (p.2, decide (p.1.state.holeCards 1 1 = foldedHand.state.holeCards 1 1))) =
          some (-103, false) := by decide +kernel
    obtain ⟨⟨t, code⟩, hrun, hp⟩ := Option.map_eq_some_iff.mp hresult
    have hcode : code = -103 := congrArg Prod.fst hp
    have hcard := congrArg (fun m => m.state.holeCards 1 1) (h _ t code hrun (by omega)).matchState
    exact of_decide_eq_false (congrArg Prod.snd hp) hcard
  · have hresult : (crowdedHand.doFinished tableConf (fullEnv 2) ⟨1, 1, [0x02, 0x13], []⟩).map
        (fun p : RunGame × Int => (p.2, decide (p.1.robotScore = crowdedHand.robotScore))) = some (-112, false) := by
      decide +kernel
    obtain ⟨⟨t, code⟩, hrun, hp⟩ := Option.map_eq_some_iff.mp hresult
    have hcode : code = -112 := congrArg Prod.fst hp
    exact of_decide_eq_false (congrArg Prod.snd hp) (h _ t code hrun (by omega)).robotScore

end RunGame

end MasterAI
