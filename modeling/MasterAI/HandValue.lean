import MasterAI.BettingState
import MasterAI.SidePots

namespace MasterAI

def rankOfCard (card : Nat) : Nat := card / maxSuits
def suitOfCard (card : Nat) : Nat := card % maxSuits
def makeCard (rank suit : Nat) : Nat := rank * maxSuits + suit

def bcStart (g : Game) (round : Nat) : Nat :=
  ((List.range round).map g.numBoardCards).sum % 256

def sumBoardCards (g : Game) (round : Nat) : Nat :=
  ((List.range (round + 1)).map g.numBoardCards).sum % 256

def addCardToCardset (cards suit rank : Nat) : Nat := cards ||| (1 <<< (suit * 16 + rank))

section

variable (rankCardset : Nat → Nat)

def rankHand (g : Game) (s : State) (player : Nat) : Nat :=
  let held := (List.range g.numHoleCards).map (s.holeCards player)
  let board := (List.range (sumBoardCards g s.round)).map s.boardCards
  rankCardset <|
    (held ++ board).foldl (fun c card => addCardToCardset c (suitOfCard card) (rankOfCard card)) 0

/-- The players of a showdown list, in seat order. -/
def showdownPlayers (g : Game) (s : State) : List Nat :=
  (List.range g.numPlayers).filter fun p => s.spent p ≠ 0

def showdownStake (g : Game) (s : State) (p : Nat) : Stake :=
  (s.spent p, if s.playerFolded p then -1 else rankHand rankCardset g s p)

def potSize (pot : List Stake) : Int :=
  pot.foldl (fun size e => if e.1 < size then e.1 else size) int32Max

/-- The largest rank and the number of players who hold it. -/
def potWinners (pot : List Stake) : Int × Nat :=
  pot.foldl (fun w e =>
    if e.2 > w.1 then (e.2, 1) else if e.2 = w.1 then (w.1, w.2 + 1) else w) (0, 0)

/-- The in-place compaction of the player list: `p` is the entry read, `newNumPlayers` the place
written, and nothing is left once the player of interest has no chips in the next pot. -/
def nextPot (size : Int) : List Stake → Nat → Nat → Nat → Option (List Stake × Nat)
  | [], _, _, playerIdx => some ([], playerIdx)
  | (spent, rank) :: rest, p, newNumPlayers, playerIdx =>
    if spent - size = 0 then
      if p = playerIdx then none else nextPot size rest (p + 1) newNumPlayers playerIdx
    else
      (nextPot size rest (p + 1) (newNumPlayers + 1)
        (if p = playerIdx then newNumPlayers else playerIdx)).map fun next =>
          ((spent - size, rank) :: next.1, next.2)

/-- The side-pot loop, one pot for each unit of the first argument. -/
def payPots : Nat → List Stake → Nat → ℚ → Option ℚ
  | 0, _, _, _ => none
  | fuel + 1, pot, playerIdx, value =>
    match pot[playerIdx]? with
    | none => none
    | some e =>
      if pot.all fun e => 0 < e.1 then
        let size := potSize pot
        let winRank := (potWinners pot).1
        let numWinners := (potWinners pot).2
        let value :=
          if e.2 = winRank then
            value + (size * ((pot.length : Int) - numWinners) : Int) / (numWinners : ℚ)
          else value - size
        match nextPot size pot 0 0 playerIdx with
        | none => some value
        | some (next, playerIdx) => payPots fuel next playerIdx value
      else none

/-- The value of a finished hand in exact arithmetic. It has no result where the source fails an
assertion or reads `rank[-1]`. -/
def valueOfState (g : Game) (s : State) (player : Nat) : Option ℚ :=
  if s.playerFolded player then some (-(s.spent player : ℚ))
  else if numFolded g s + 1 = g.numPlayers then
    some (((List.range g.numPlayers).filter (· ≠ player)).map fun p => (s.spent p : ℚ)).sum
  else
    let players := showdownPlayers g s
    if 1 < players.length then
      payPots players.length (players.map (showdownStake rankCardset g s)) (players.idxOf player) 0
    else none

end

theorem potSize_eq (pot : List Stake) : potSize pot = SidePot.smallest int32Max pot := by
  unfold potSize SidePot.smallest
  congr 1
  funext m e
  split <;> omega

theorem potWinners_foldl (pot : List Stake) (w : Int) (k : Nat) :
    pot.foldl (fun w e =>
      if e.2 > w.1 then (e.2, 1) else if e.2 = w.1 then (w.1, w.2 + 1) else w) (w, k) =
    (SidePot.rankFrom w pot, (if SidePot.rankFrom w pot = w then k else 0) +
        pot.countP fun e => e.2 = SidePot.rankFrom w pot) := by
  induction pot generalizing w k with
  | nil => simp [SidePot.rankFrom]
  | cons e pot ih =>
    have hle := SidePot.le_rankFrom (max w e.2) pot
    rw [SidePot.rankFrom_cons]
    simp only [List.foldl_cons, List.countP_cons, decide_eq_true_eq]
    rcases lt_trichotomy w e.2 with h | h | h
    · rw [max_eq_right h.le] at hle ⊢
      rw [if_pos h, ih, if_neg (show ¬SidePot.rankFrom e.2 pot = w by omega)]
      simp only [Prod.mk.injEq, true_and, eq_comm (a := e.2)]
      omega
    · subst h
      rw [max_self, if_neg (lt_irrefl _), if_pos rfl, ih]
      simp only [Prod.mk.injEq, true_and, eq_comm (a := e.2)]
      split <;> omega
    · rw [max_eq_left h.le] at hle ⊢
      rw [if_neg (by omega), if_neg (by omega), ih,
        if_neg (show ¬e.2 = SidePot.rankFrom w pot by omega), Nat.add_zero]

theorem potWinners_eq (pot : List Stake) :
    potWinners pot = (SidePot.topRank pot, SidePot.winners pot) := by
  unfold potWinners
  rw [potWinners_foldl, ite_self, Nat.zero_add]
  rfl

theorem nextPot_past {size : Int} (pot : List Stake) {p newNumPlayers playerIdx : Nat}
    (h : playerIdx < p) :
    nextPot size pot p newNumPlayers playerIdx = some (SidePot.above size pot, playerIdx) := by
  induction pot generalizing p newNumPlayers with
  | nil => rfl
  | cons e rest ih =>
    simp only [nextPot, if_neg (show ¬p = playerIdx by omega)]
    split
    next hs =>
      rw [ih (by omega)]
      simp [SidePot.above, hs]
    next hs =>
      rw [ih (by omega)]
      simp [SidePot.above, hs]

/-- Compaction keeps the player of interest exactly while the stake reaches above the pot, and
then moves the index to the entry that holds the rest of the stake. -/
theorem nextPot_spec (size : Int) {pot : List Stake} {i : Nat} (p newNumPlayers : Nat) {e : Stake}
    (he : pot[i]? = some e) (hp : newNumPlayers ≤ p) :
    (e.1 = size ∧ nextPot size pot p newNumPlayers (p + i) = none) ∨
      (e.1 ≠ size ∧ ∃ j, nextPot size pot p newNumPlayers (p + i) =
          some (SidePot.above size pot, newNumPlayers + j) ∧
        (SidePot.above size pot)[j]? = some (e.1 - size, e.2)) := by
  induction pot generalizing i p newNumPlayers with
  | nil => simp at he
  | cons x rest ih =>
    cases i with
    | zero =>
      simp only [List.getElem?_cons_zero, Option.some.injEq] at he
      subst x
      by_cases hs : e.1 = size
      · left
        exact ⟨hs, by simp [nextPot, hs]⟩
      · right
        have hs' : ¬e.1 - size = 0 := by omega
        refine ⟨hs, 0, ?_, by simp [SidePot.above, hs']⟩
        simp [nextPot, hs', nextPot_past rest (show newNumPlayers < p + 1 by omega), SidePot.above]
    | succ i =>
      simp only [List.getElem?_cons_succ] at he
      have hne : ¬p = p + 1 + i := by omega
      have hidx : p + (i + 1) = p + 1 + i := by omega
      by_cases hx : x.1 - size = 0
      · have habove : SidePot.above size (x :: rest) = SidePot.above size rest := by
          simp [SidePot.above, hx]
        have hnext : nextPot size (x :: rest) p newNumPlayers (p + (i + 1)) =
            nextPot size rest (p + 1) newNumPlayers (p + 1 + i) := by
          rw [hidx]
          simp only [nextPot, if_pos hx, if_neg hne]
        rw [habove, hnext]
        exact ih (p + 1) newNumPlayers he (by omega)
      · have habove : SidePot.above size (x :: rest) = (x.1 - size, x.2) :: SidePot.above size rest := by
          simp [SidePot.above, hx]
        have hnext : nextPot size (x :: rest) p newNumPlayers (p + (i + 1)) =
            (nextPot size rest (p + 1) (newNumPlayers + 1) (p + 1 + i)).map fun next =>
              ((x.1 - size, x.2) :: next.1, next.2) := by
          rw [hidx]
          simp only [nextPot, if_neg hx, if_neg hne]
        rw [habove, hnext]
        rcases ih (p + 1) (newNumPlayers + 1) he (by omega) with
          ⟨hs, hn⟩ | ⟨hs, j, hn, hj⟩
        · left; exact ⟨hs, by simp [hn]⟩
        · right
          refine ⟨hs, j + 1, ?_, by simpa using hj⟩
          rw [hn]
          simp only [Option.map_some, Option.some.injEq, Prod.mk.injEq, true_and]
          omega

/-- The side-pot loop ends and pays the player the share of the abstract division. -/
theorem payPots_eq {fuel : Nat} {pot : List Stake} {i : Nat} {e : Stake} {value : ℚ}
    (he : pot[i]? = some e) (enough : pot.length ≤ fuel)
    (pos : ∀ e ∈ pot, 0 < e.1) (hcap : ∀ e ∈ pot, e.1 ≤ int32Max) :
    payPots fuel pot i value = some (value + SidePot.share int32Max fuel pot e) := by
  induction fuel generalizing pot i e value with
  | zero =>
    have hn : pot = [] := List.length_eq_zero_iff.mp (by omega)
    simp [hn] at he
  | succ fuel ih =>
    have hmem := List.mem_of_getElem? he
    have hall : (pot.all fun e => decide (0 < e.1)) = true := by
      simpa using fun a b hab => pos (a, b) hab
    obtain ⟨x, hx, hsize⟩ := SidePot.smallest_attained (List.ne_nil_of_mem hmem) hcap
    have hshort := SidePot.above_length_lt hx hsize
    have hsizePos := pos x hx
    have hvalue : (if e.2 = SidePot.topRank pot then value +
          (SidePot.smallest int32Max pot * ((pot.length : Int) - SidePot.winners pot) : Int) /
            (SidePot.winners pot : ℚ)
        else value - SidePot.smallest int32Max pot) =
        value + SidePot.gain (SidePot.smallest int32Max pot) pot e.2 := by
      unfold SidePot.gain
      split
      · rfl
      · exact sub_eq_add_neg _ _
    simp only [payPots, he, hall, if_true, potSize_eq, potWinners_eq, hvalue, SidePot.share]
    have hnext := nextPot_spec (SidePot.smallest int32Max pot) 0 0 he le_rfl
    rw [zero_add] at hnext
    rcases hnext with ⟨hs, hn⟩ | ⟨hs, j, hn, hj⟩
    · simp only [hn, if_pos hs, add_zero]
    · simp only [hn, if_neg hs, zero_add]
      rw [ih hj (by omega)]
      · rw [add_assoc]
      · intro y hy
        obtain ⟨hm, hne⟩ := SidePot.mem_above.mp hy
        have := SidePot.smallest_le int32Max hm
        simp only at this
        omega
      · intro y hy
        have := hcap _ (SidePot.mem_above.mp hy).1
        simp only at this
        omega

section

variable {rankCardset : Nat → Nat} {g : Game} {s : State} {p : Nat}

theorem nextPot_length_le {size : Int} {pot next : List Stake} {i k playerIdx nextIdx : Nat}
    (h : nextPot size pot i k playerIdx = some (next, nextIdx)) : next.length ≤ pot.length := by
  induction pot generalizing i k playerIdx next with
  | nil =>
    cases h
    exact le_rfl
  | cons e rest ih =>
    obtain ⟨spent, rank⟩ := e
    simp only [nextPot] at h
    split at h
    · split at h
      · cases h
      · exact (ih h).trans (Nat.le_succ _)
    · obtain ⟨⟨tail, idx⟩, htail, hcons⟩ := Option.map_eq_some_iff.mp h
      cases hcons
      exact Nat.succ_le_succ (ih htail)

/-- The share of a winner in a pot of at most two players is a whole number. -/
theorem share_int (size : Int) {pot : List Stake} (h : pot.length ≤ 2) :
    ∃ v : Int, ((size * ((pot.length : Int) - (potWinners pot).2) : Int) : ℚ) / ((potWinners pot).2 : ℚ) = v := by
  have hle : (potWinners pot).2 ≤ pot.length := by
    rw [potWinners_eq]
    exact List.countP_le_length
  generalize (potWinners pot).2 = winners at hle
  obtain rfl | rfl | ⟨rfl, hlen⟩ : winners = 0 ∨ winners = 1 ∨ (winners = 2 ∧ pot.length = 2) := by omega
  · exact ⟨0, by simp⟩
  · exact ⟨size * (pot.length - 1), by simp⟩
  · exact ⟨0, by simp [hlen]⟩

theorem payPots_int {fuel : Nat} {pot : List Stake} {i : Nat} {value : Int} {result : ℚ}
    (hlen : pot.length ≤ 2) (h : payPots fuel pot i value = some result) : ∃ v : Int, result = v := by
  induction fuel generalizing pot i value with
  | zero => cases h
  | succ fuel ih =>
    simp only [payPots] at h
    split at h
    · cases h
    · next e he =>
      split at h
      · obtain ⟨won, hwon⟩ := share_int (potSize pot) hlen
        have hvalue : ∃ v : Int, (if e.2 = (potWinners pot).1 then
            (value : ℚ) + ((potSize pot * ((pot.length : Int) - (potWinners pot).2) : Int) : ℚ) /
              ((potWinners pot).2 : ℚ)
            else (value : ℚ) - (potSize pot : ℚ)) = v := by
          split
          · exact ⟨value + won, by rw [hwon]; push_cast; ring⟩
          · exact ⟨value - potSize pot, by push_cast; ring⟩
        obtain ⟨v, hv⟩ := hvalue
        rw [hv] at h
        split at h
        · cases h
          exact ⟨v, rfl⟩
        · next next idx hnext => exact ih ((nextPot_length_le hnext).trans hlen) h
      · cases h

theorem sum_cast_int (l : List Nat) (f : Nat → Int) : ∃ v : Int, (l.map fun p => (f p : ℚ)).sum = v := by
  induction l with
  | nil => exact ⟨0, by simp⟩
  | cons p l ih =>
    obtain ⟨v, hv⟩ := ih
    exact ⟨f p + v, by simp [hv]⟩

/-- Two players share every pot in whole chips. -/
theorem valueOfState_int (hn : g.numPlayers = 2) {value : ℚ}
    (h : valueOfState rankCardset g s p = some value) : ∃ v : Int, value = v := by
  unfold valueOfState at h
  split at h
  · cases h
    exact ⟨-s.spent p, by simp⟩
  · split at h
    · cases h
      exact sum_cast_int _ s.spent
    · simp only at h
      split at h
      · rw [← Int.cast_zero] at h
        refine payPots_int ?_ h
        rw [List.length_map]
        refine (List.length_filter_le _ _).trans ?_
        simp [hn]
      · cases h

end

end MasterAI
