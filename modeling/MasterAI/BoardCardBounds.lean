import MasterAI.BettingRuns
import MasterAI.StateText
import Mathlib.Algebra.Order.BigOperators.Group.List

namespace MasterAI

namespace InBounds

/-- An entry of `numBoardCards`; nothing outside the array. -/
def numBoardCardsAt (g : Game) (round : Nat) : Option Nat :=
  if round < maxRounds then some (g.numBoardCards round) else none

/-- An entry of `boardCards`; nothing outside the array. -/
def boardCardsAt (s : State) (i : Nat) : Option Nat := if i < maxBoardCards then some (s.boardCards i) else none

/-- Some entries of `boardCards` in a row. -/
def readBoard (s : State) (start count : Nat) : Option (List Nat) :=
  (List.range count).mapM fun k => boardCardsAt s (start + k)

def bcStart (g : Game) (round : Nat) : Option Nat :=
  (List.range round).foldlM (fun start r => (numBoardCardsAt g r).map fun n => (start + n) % 256) 0

def sumBoardCards (g : Game) (round : Nat) : Option Nat :=
  (List.range (round + 1)).foldlM (fun total r => (numBoardCardsAt g r).map fun n => (total + n) % 256) 0

def rankHand (rankCardset : Nat → Nat) (g : Game) (s : State) (player : Nat) : Option Nat :=
  (sumBoardCards g s.round).bind fun count => (readBoard s 0 count).map fun board =>
    rankCardset (((List.range g.numHoleCards).map (s.holeCards player) ++ board).foldl
      (fun c card => addCardToCardset c (suitOfCard card) (rankOfCard card)) 0)

/-- A piece of a print function that reads arrays: nothing where it leaves one, otherwise what the piece writes. -/
abbrev BoundedPrinter := Int → Option (Option (List Char))

def printAll : List BoundedPrinter → BoundedPrinter
  | [], _ => some (some [])
  | piece :: pieces, maxLen => (piece maxLen).bind fun text =>
      text.elim (some none) fun text => (printAll pieces (maxLen - text.length)).map fun rest => rest.map (text ++ ·)

def printCards (s : State) (start count : Nat) : BoundedPrinter :=
  printAll ((List.range count).map fun k => fun maxLen =>
    (boardCardsAt s (start + k)).map fun card => printCard card maxLen)

/-- The board cards of a round, behind the separator of the rounds. -/
def roundPieces (g : Game) (s : State) (i : Nat) : List BoundedPrinter :=
  (if i ≠ 0 then [fun maxLen => some (printChar '/' maxLen)] else []) ++
    [fun maxLen => (bcStart g i).bind fun start => (numBoardCardsAt g i).bind fun count =>
      printCards s start count maxLen]

/-- The loop of `printBoardCards` and `printAllBoardCards` over some rounds. -/
def printRounds (g : Game) (s : State) (rounds : Nat) : BoundedPrinter :=
  printAll ((List.range rounds).flatMap (roundPieces g s) ++ [fun maxLen => some (terminate maxLen)])

def printBoardCards (g : Game) (s : State) : BoundedPrinter := printRounds g s (s.round + 1)

def printAllBoardCards (g : Game) (s : State) : BoundedPrinter := printRounds g s g.numRounds

/-- Cards as `printAllCards` writes them, which cuts the last separator off. -/
def cardsText (cards : List Nat) : List Char :=
  let text := cards.flatMap fun card => printNat card ++ [',', ' ']
  text.take (text.length - 2)

def printAllCards (g : Game) (s : State) : Option (List Char) :=
  (sumBoardCards g g.numRounds).bind fun count => (readBoard s 0 count).map fun board =>
    cardsText (((List.range g.numPlayers).flatMap fun i => (List.range g.numHoleCards).map (s.holeCards i)) ++ board)

/-- The board cards of the history that `SaveHistory` stores, with suit and rank. -/
def savedBoardCards (g : Game) (s : State) : Option (List (Nat × Nat)) :=
  (sumBoardCards g g.numRounds).bind fun count => (readBoard s 0 count).map fun board =>
    board.map fun card => (suitOfCard card, rankOfCard card)

def totalBoardCards (g : Game) : Nat := ((List.range g.numRounds).map g.numBoardCards).sum

/-- No index leaves its array, and the functions that write all board cards write those of all rounds. A card stands
between the commas of the text. -/
structure BoardCardsServed (rankCardset : Nat → Nat) (g : Game) (s : State) : Prop where
  ranked : ∀ player, (rankHand rankCardset g s player).isSome
  printed : ∀ maxLen, (printBoardCards g s maxLen).isSome
  allPrinted : ∀ maxLen, (printAllBoardCards g s maxLen).isSome
  cards : ∃ text, printAllCards g s = some text ∧
    text.count ',' + 1 = g.numPlayers * g.numHoleCards + totalBoardCards g
  saved : ∃ cards, savedBoardCards g s = some cards ∧ cards.length = totalBoardCards g

section

variable {g : Game} {s : State} {round start count : Nat}

theorem bcStart_eq (g : Game) (round : Nat) :
    bcStart g round = if round ≤ maxRounds then some (MasterAI.bcStart g round) else none := by
  unfold bcStart MasterAI.bcStart
  induction round with
  | zero => rfl
  | succ round ih =>
    rw [List.range_succ, List.foldlM_append, ih]
    by_cases hround : round < maxRounds
    · rw [if_pos hround.le, if_pos (Nat.succ_le_of_lt hround)]
      simp [numBoardCardsAt, hround]
    · rw [if_neg (show ¬round + 1 ≤ maxRounds from hround)]
      split
      next => simp [numBoardCardsAt, hround]
      next => rfl

theorem sumBoardCards_eq (g : Game) (round : Nat) :
    sumBoardCards g round = if round < maxRounds then some (MasterAI.sumBoardCards g round) else none :=
  bcStart_eq g (round + 1)

theorem readBoard_eq (s : State) (start count : Nat) :
    readBoard s start count =
      if count = 0 ∨ start + count ≤ maxBoardCards then some ((List.range count).map fun k => s.boardCards (start + k))
      else none := by
  unfold readBoard
  induction count with
  | zero => rfl
  | succ count ih =>
    rw [List.range_succ, List.mapM_append, ih]
    by_cases hall : start + (count + 1) ≤ maxBoardCards
    · rw [if_pos (Or.inr (by omega)), if_pos (Or.inr hall)]
      simp [boardCardsAt, show start + count < maxBoardCards by omega]
    · have hnone : ¬(count + 1 = 0 ∨ start + (count + 1) ≤ maxBoardCards) := by omega
      have hlast : boardCardsAt s (start + count) = none := if_neg (by omega)
      rw [if_neg hnone]
      split
      next => simp [hlast]
      next => rfl

/-- The bounded printer never leaves an array and writes what the other one does. -/
def Prints (bounded : BoundedPrinter) (printer : Printer) : Prop := ∀ maxLen, bounded maxLen = some (printer maxLen)

theorem Prints.printAll {bounded : List BoundedPrinter} {printers : List Printer}
    (h : List.Forall₂ Prints bounded printers) : Prints (printAll bounded) (MasterAI.printAll printers) := by
  induction h with
  | nil => exact fun _ => rfl
  | @cons _ printer _ printers hpiece _ ih =>
    intro maxLen
    rw [InBounds.printAll, hpiece maxLen, Option.bind_some, MasterAI.printAll]
    cases printer maxLen with
    | none => rfl
    | some text =>
      rw [Option.elim_some, ih, Option.map_some, Option.bind_eq_bind, Option.bind_some]
      cases MasterAI.printAll printers (maxLen - text.length) <;> rfl

theorem printCards_prints (h : start + count ≤ maxBoardCards) :
    Prints (printCards s start count) (MasterAI.printCards count fun k => s.boardCards (start + k)) := by
  refine Prints.printAll ?_
  rw [List.forall₂_map_left_iff, List.forall₂_map_right_iff, List.forall₂_same]
  intro k hk maxLen
  have hk := List.mem_range.mp hk
  rw [boardCardsAt, if_pos (by omega)]
  rfl

theorem sum_range_mono {m n : Nat} (f : Nat → Nat) (hmn : m ≤ n) :
    ((List.range m).map f).sum ≤ ((List.range n).map f).sum :=
  ((List.range_sublist.mpr hmn).map f).sum_le_sum fun _ _ => Nat.zero_le _

/-- The board cards of a round that is played fit into the array. -/
theorem bcStart_add_le (hcards : totalBoardCards g ≤ maxBoardCards) (hround : round < g.numRounds) :
    MasterAI.bcStart g round + g.numBoardCards round ≤ maxBoardCards ∧
      MasterAI.sumBoardCards g round ≤ maxBoardCards := by
  have hsum : ((List.range (round + 1)).map g.numBoardCards).sum ≤ _ := sum_range_mono g.numBoardCards hround
  have hlast : ((List.range (round + 1)).map g.numBoardCards).sum =
      ((List.range round).map g.numBoardCards).sum + g.numBoardCards round := by
    rw [List.range_succ, List.map_append, List.sum_append]
    simp
  have hmod := Nat.mod_le (((List.range round).map g.numBoardCards).sum) 256
  have hmodSucc := Nat.mod_le (((List.range (round + 1)).map g.numBoardCards).sum) 256
  unfold totalBoardCards at hcards
  unfold MasterAI.bcStart MasterAI.sumBoardCards
  omega

theorem printRounds_prints (hrounds : g.numRounds ≤ maxRounds) (hcards : totalBoardCards g ≤ maxBoardCards)
    (hround : round ≤ g.numRounds) :
    Prints (printRounds g s round) (MasterAI.printAll (separated round '/' (fun i =>
      [MasterAI.printCards (g.numBoardCards i) fun k => s.boardCards (MasterAI.bcStart g i + k)]) ++ [terminate])) := by
  refine Prints.printAll (List.rel_append ?_ (List.Forall₂.cons (fun _ => rfl) List.Forall₂.nil))
  unfold separated
  induction round with
  | zero => exact List.Forall₂.nil
  | succ i ih =>
    rw [List.range_succ, List.flatMap_append, List.flatMap_append]
    refine List.rel_append (ih (by omega)) ?_
    rw [List.flatMap_singleton, List.flatMap_singleton]
    refine List.rel_append ?_ (List.Forall₂.cons ?_ List.Forall₂.nil)
    · split
      next => exact List.Forall₂.cons (fun _ => rfl) List.Forall₂.nil
      next => exact List.Forall₂.nil
    · intro maxLen
      have hi : i < maxRounds := by omega
      dsimp only
      rw [bcStart_eq, if_pos hi.le, Option.bind_some, numBoardCardsAt, if_pos hi, Option.bind_some]
      exact printCards_prints (bcStart_add_le hcards (by omega)).1 maxLen

theorem count_cards_text (cards : List Nat) :
    (cards.flatMap fun card => printNat card ++ [',', ' ']).count ',' = cards.length := by
  induction cards with
  | nil => rfl
  | cons card cards ih =>
    have hdigits : (printNat card).count ',' = 0 := by
      refine List.count_eq_zero.mpr fun hmem => ?_
      have hdigit := printNat_digits ',' hmem
      exact absurd hdigit (by decide)
    rw [List.flatMap_cons, List.count_append, List.count_append, ih, hdigits, List.length_cons]
    simp [Nat.add_comm]

/-- A comma stands between two cards. -/
theorem count_cardsText {cards : List Nat} (hne : cards ≠ []) : (cardsText cards).count ',' + 1 = cards.length := by
  obtain ⟨earlier, card, rfl⟩ := List.eq_nil_or_concat cards |>.resolve_left hne
  have hall := count_cards_text (earlier ++ [card])
  have hsplit : ((earlier ++ [card]).flatMap fun card => printNat card ++ [',', ' ']) =
      ((earlier.flatMap fun card => printNat card ++ [',', ' ']) ++ printNat card) ++ [',', ' '] := by
    rw [List.flatMap_append, List.flatMap_singleton, List.append_assoc]
  have hcut : cardsText (earlier ++ [card]) =
      (earlier.flatMap fun card => printNat card ++ [',', ' ']) ++ printNat card := by
    unfold cardsText
    rw [hsplit]
    generalize (earlier.flatMap fun card => printNat card ++ [',', ' ']) ++ printNat card = text
    simp
  rw [hsplit, List.count_append] at hall
  rw [List.concat_eq_append, hcut, ← hall]
  rfl

theorem readLine_board {r r' : GameReader} {line : GameLine} (h : r.readLine line = some r')
    (hr : ∀ c, r.game.numBoardCards c < 256) : ∀ c, r'.game.numBoardCards c < 256 := by
  cases line with
  | raiseSize items =>
    simp only [GameReader.readLine] at h
    split at h
    · simp at h
    · cases Option.some.inj h
      exact hr
  | numBoardCards items =>
    cases Option.some.inj h
    intro c
    simp only [readItems]
    split
    · cases hitem : (items.map toUInt8)[c]? with
      | none => exact hr c
      | some n =>
        obtain ⟨x, -, rfl⟩ := List.mem_map.mp (List.mem_of_getElem? hitem)
        simp only [Option.getD_some, toUInt8]
        omega
    · exact hr c
  | _ =>
    cases Option.some.inj h
    exact hr

theorem readLines_board {lines : List GameLine} {r r' : GameReader} (h : r.readLines lines = some r')
    (hr : ∀ c, r.game.numBoardCards c < 256) : ∀ c, r'.game.numBoardCards c < 256 := by
  induction lines generalizing r with
  | nil =>
    cases Option.some.inj h
    exact hr
  | cons line lines ih =>
    by_cases hend : line = .endGamedef
    · subst hend
      cases Option.some.inj h
      exact hr
    · rw [GameReader.readLines.eq_3 r line lines (by simpa using hend)] at h
      obtain ⟨next, hnext, h⟩ := Option.bind_eq_some_iff.mp h
      exact ih h (readLine_board hnext hr)

/-- What an accepted game deals fits into a byte. -/
theorem readGame_board {lines : List GameLine} (h : readGame lines = some g) :
    (∀ c, g.numBoardCards c < 256) ∧ totalBoardCards g < 256 := by
  obtain ⟨r, hr, h⟩ := Option.bind_eq_some_iff.mp h
  have hboard := readLines_board hr fun c => show 0 < 256 by decide
  simp only [GameReader.sanityChecks, Option.bind_eq_bind, Option.bind_eq_some_iff, Option.guard_eq_some',
    Option.pure_def, Option.some.injEq, exists_and_left, exists_const] at h
  obtain ⟨-, -, -, -, -, -, -, hsuits, hranks, -, -, hdeck, rfl⟩ := h
  refine ⟨hboard, ?_⟩
  have hcards : r.game.numSuits * r.game.numRanks ≤ 4 * 13 := Nat.mul_le_mul hsuits.2 hranks.2
  simp only [Game.totalCards] at hdeck
  simp only [totalBoardCards]
  omega

/-- The sum that the functions take which write all board cards counts one entry more than there are rounds. -/
theorem sumBoardCards_numRounds (hbyte : g.numBoardCards g.numRounds < 256) (htotal : totalBoardCards g < 256) :
    MasterAI.sumBoardCards g g.numRounds = totalBoardCards g ↔ g.numBoardCards g.numRounds = 0 := by
  have hsum : MasterAI.sumBoardCards g g.numRounds = (totalBoardCards g + g.numBoardCards g.numRounds) % 256 := by
    rw [MasterAI.sumBoardCards, List.range_succ, List.map_append, List.sum_append, totalBoardCards]
    simp
  rw [hsum]
  omega

/-- Exactly in which games every index stays in its array and all board cards are written: there are fewer rounds than
the array has entries, the entry behind the last round is empty, and the cards of all rounds fit. -/
theorem boardCards_served_iff (rankCardset : Nat → Nat) {lines : List GameLine} (hread : readGame lines = some g)
    (hround : s.round < g.numRounds) :
    BoardCardsServed rankCardset g s ↔
      g.numRounds < maxRounds ∧ g.numBoardCards g.numRounds = 0 ∧ totalBoardCards g ≤ maxBoardCards := by
  have wf := readGame_wellFormed hread
  obtain ⟨hbyte, htotal⟩ := readGame_board hread
  have hsum := sumBoardCards_numRounds (hbyte g.numRounds) htotal
  constructor
  · intro h
    obtain ⟨cards, hcards, hlength⟩ := h.saved
    unfold savedBoardCards at hcards
    obtain ⟨count, hcount, hcards⟩ := Option.bind_eq_some_iff.mp hcards
    obtain ⟨board, hboard, rfl⟩ := Option.map_eq_some_iff.mp hcards
    rw [sumBoardCards_eq] at hcount
    rw [readBoard_eq] at hboard
    split at hcount
    case isFalse => cases hcount
    case isTrue hrounds =>
      split at hboard
      case isFalse => cases hboard
      case isTrue hfits =>
        cases Option.some.inj hcount
        cases Option.some.inj hboard
        simp only [List.length_map, List.length_range] at hlength
        exact ⟨hrounds, hsum.mp hlength, by omega⟩
  · rintro ⟨hrounds, hempty, hcards⟩
    have hall : sumBoardCards g g.numRounds = some (totalBoardCards g) := by
      rw [sumBoardCards_eq, if_pos hrounds, hsum.mpr hempty]
    have hboard : readBoard s 0 (totalBoardCards g) =
        some ((List.range (totalBoardCards g)).map fun k => s.boardCards (0 + k)) := by
      rw [readBoard_eq, if_pos (Or.inr (by omega))]
    refine ⟨fun player => ?_, fun maxLen => ?_, fun maxLen => ?_, ?_, ?_⟩
    · rw [rankHand, sumBoardCards_eq, if_pos (by omega), Option.bind_some, readBoard_eq,
        if_pos (Or.inr (by have := (bcStart_add_le hcards hround).2; omega))]
      rfl
    · rw [printBoardCards, printRounds_prints wf.rounds_le hcards hround]
      rfl
    · rw [printAllBoardCards, printRounds_prints wf.rounds_le hcards le_rfl]
      rfl
    · rw [printAllCards, hall, Option.bind_some, hboard]
      refine ⟨_, rfl, ?_⟩
      have hlength : ((List.range g.numPlayers).flatMap fun i => (List.range g.numHoleCards).map (s.holeCards i)).length =
          g.numPlayers * g.numHoleCards := by simp
      have hpos : 0 < g.numPlayers * g.numHoleCards :=
        Nat.mul_pos (by have := wf.players_ge; omega) wf.holeCards_pos
      rw [count_cardsText (List.append_ne_nil_of_left_ne_nil (List.length_pos_iff.mp (hlength ▸ hpos)) _),
        List.length_append, hlength]
      simp
    · rw [savedBoardCards, hall, Option.bind_some, hboard]
      exact ⟨_, rfl, by simp⟩

end

/-- A game of two rounds with one board card. -/
def leducFile : List GameLine :=
  [.limit, .numPlayers [2], .numRounds [2], .blind [1, 1], .raiseSize [2, 4], .maxRaises [2, 2], .numSuits [2],
    .numRanks [3], .numHoleCards [1], .numBoardCards [0, 1]]

def leducGame : Game := (readGame leducFile).get (by decide)

theorem leducGame_served : BoardCardsServed id leducGame (initState leducGame 0 blankState) :=
  (boardCards_served_iff id (Option.some_get (by decide : (readGame leducFile).isSome)).symm (by decide)).mpr (by decide)

def fourRoundFile : List GameLine :=
  [.nolimit, .numPlayers [2], .numRounds [4], .stack [20000, 20000], .blind [100, 50], .firstPlayer [2, 1, 1, 1],
    .numSuits [4], .numRanks [13], .numHoleCards [2], .numBoardCards [0, 3, 1, 1]]

def fourRoundGame : Game := (readGame fourRoundFile).get (by decide)

/-- With four rounds the sum over all rounds reads behind the array of the board card numbers. -/
theorem fourRoundGame_not_served :
    ¬(∀ rankCardset lines g s, readGame lines = some g → s.round < g.numRounds → BoardCardsServed rankCardset g s) ∧
      readGame fourRoundFile = some fourRoundGame ∧
      savedBoardCards fourRoundGame (initState fourRoundGame 0 blankState) = none ∧
      printAllCards fourRoundGame (initState fourRoundGame 0 blankState) = none := by
  have hread : readGame fourRoundFile = some fourRoundGame := (Option.some_get _).symm
  have hnone : savedBoardCards fourRoundGame (initState fourRoundGame 0 blankState) = none := by decide
  refine ⟨fun hall => ?_, hread, hnone, by decide⟩
  obtain ⟨cards, hcards, -⟩ := (hall id _ _ (initState fourRoundGame 0 blankState) hread (by decide)).saved
  rw [hnone] at hcards
  cases hcards

end InBounds

end MasterAI
