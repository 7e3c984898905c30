import MasterAI.Genrand
import MasterAI.IndependentSteps
import MasterAI.StateRoundTrip
import MasterAI.SwapDraws
import Mathlib.Data.List.GetD

namespace MasterAI

/-- The deck of the game, in the order in which `dealCards` lays it out. -/
def deckCards (g : Game) : List Nat :=
  (List.range' (maxSuits - g.numSuits) g.numSuits).flatMap fun s =>
    (List.range' (maxRanks - g.numRanks) g.numRanks).map fun r => makeCard r s

/-- A place that a card is dealt to. -/
inductive Place
  | hole (p i : Nat)
  | board (s : Nat)
  deriving DecidableEq, Repr

/-- The place is inside its array. -/
def Place.InArray : Place → Prop
  | .hole p i => p < maxPlayers ∧ i < maxHoleCards
  | .board s => s < maxBoardCards

instance decidableInArray : ∀ place : Place, Decidable place.InArray
  | .hole _ _ => inferInstanceAs (Decidable (_ ∧ _))
  | .board s => inferInstanceAs (Decidable (s < maxBoardCards))

namespace State

def cardAt (s : State) : Place → Nat
  | .hole p i => s.holeCards p i
  | .board i => s.boardCards i

def setCard (s : State) (card : Nat) : Place → State
  | .hole p i => { s with holeCards := Function.update s.holeCards p (Function.update (s.holeCards p) i card) }
  | .board i => { s with boardCards := Function.update s.boardCards i card }

theorem cardAt_setCard_self (s : State) (card : Nat) (place : Place) : (s.setCard card place).cardAt place = card := by
  cases place <;> simp [setCard, cardAt]

theorem cardAt_setCard_of_ne (s : State) (card : Nat) {place other : Place} (h : other ≠ place) :
    (s.setCard card place).cardAt other = s.cardAt other := by
  cases place with
  | hole p i =>
    cases other with
    | hole q j =>
      by_cases hq : q = p
      · subst hq
        have hji : j ≠ i := fun hji => h (by rw [hji])
        simp [setCard, cardAt, hji]
      · simp [setCard, cardAt, hq]
    | board j => rfl
  | board i =>
    cases other with
    | hole q j => rfl
    | board j =>
      have hji : j ≠ i := fun hji => h (by rw [hji])
      simp [setCard, cardAt, hji]

end State

section

variable {ρ : Type*} (genrand : ρ → BitVec 32 × ρ)

/-- What the loops of `dealCards` carry along. -/
structure Dealing (ρ : Type*) where
  rng : ρ
  deck : Nat → Nat
  numCards : Nat
  state : State

/-- `dealCard`. A remainder by zero has no result. -/
def dealCard (rng : ρ) (deck : Nat → Nat) (numCards : Nat) : Option (Nat × ρ × (Nat → Nat)) :=
  if numCards = 0 then none
  else
    let (x, rng) := genrand rng
    let i := x.toNat % numCards
    some (deck i, rng, Function.update deck i (deck (numCards - 1)))

/-- The body of both loops. A write outside its array has no result. -/
def dealTo (d : Dealing ρ) (place : Place) : Option (Dealing ρ) :=
  if place.InArray then
    (dealCard genrand d.rng d.deck d.numCards).map fun (card, rng, deck) =>
      { rng := rng, deck := deck, numCards := d.numCards - 1, state := d.state.setCard card place }
  else none

/-- The deck lies at the start of an array, of which the rest is what `memory` held. -/
def dealCards (memory : Nat → Nat) (g : Game) (rng : ρ) (state : State) : Option (State × ρ) := do
  let d : Dealing ρ :=
    { rng := rng
      deck := fun i => (deckCards g).getD i (memory i)
      numCards := (deckCards g).length
      state := state }
  let d ← (List.range g.numPlayers).foldlM (fun d p =>
    (List.range g.numHoleCards).foldlM (fun d i => dealTo genrand d (.hole p i)) d) d
  let (d, _) ← (List.range g.numRounds).foldlM (fun e r =>
    (List.range (g.numBoardCards r)).foldlM (fun e _ => do
      let d ← dealTo genrand e.1 (.board e.2)
      pure (d, e.2 + 1)) e) (d, 0)
  pure (d.state, d.rng)

end

/-- The places of a game in the order in which they are dealt to. -/
def dealPlaces (g : Game) : List Place :=
  ((List.range g.numPlayers).flatMap fun p => (List.range g.numHoleCards).map (Place.hole p)) ++
    (List.range (boardBefore g g.numRounds)).map Place.board

/-- The cards of a state in the order in which they were dealt. -/
def dealtCards (g : Game) (s : State) : List Nat := (dealPlaces g).map s.cardAt

theorem dealPlaces_length (g : Game) : (dealPlaces g).length = g.totalCards := by
  simp [dealPlaces, Game.totalCards, boardBefore, List.length_flatMap, Nat.mul_comm]

theorem dealPlaces_nodup (g : Game) : (dealPlaces g).Nodup := by
  refine List.nodup_append.mpr ⟨?_, List.nodup_range.map fun i j h => Place.board.inj h, ?_⟩
  · refine List.nodup_flatMap.mpr ⟨fun p _ => List.nodup_range.map fun i j h => (Place.hole.inj h).2, ?_⟩
    refine List.nodup_range.imp fun {p q} hpq => ?_
    intro place hp hq
    obtain ⟨i, -, rfl⟩ := List.mem_map.mp hp
    obtain ⟨j, -, h⟩ := List.mem_map.mp hq
    exact hpq (Place.hole.inj h).1.symm
  · intro place hp other hq h
    obtain ⟨p, -, hp⟩ := List.mem_flatMap.mp hp
    obtain ⟨i, -, rfl⟩ := List.mem_map.mp hp
    obtain ⟨j, -, rfl⟩ := List.mem_map.mp hq
    cases h

section

variable {ρ : Type*} {genrand : ρ → BitVec 32 × ρ}

/-- The loop over the board, which counts the places itself. -/
theorem foldlM_board {α : Type*} (l : List α) (d : Dealing ρ) (s : Nat) :
    l.foldlM (fun e _ => (do
      let d ← dealTo genrand e.1 (.board e.2)
      pure (d, e.2 + 1) : Option (Dealing ρ × Nat))) (d, s) =
      (((List.range' s l.length).map Place.board).foldlM (dealTo genrand) d).map fun d => (d, s + l.length) := by
  induction l generalizing d s with
  | nil => rfl
  | cons a l ih =>
    rw [List.foldlM_cons, List.length_cons, List.range'_succ, List.map_cons, List.foldlM_cons]
    cases dealTo genrand d (.board s) with
    | none => rfl
    | some d' =>
      have hrest := ih d' (s + 1)
      rw [Nat.add_right_comm] at hrest
      exact hrest

/-- The loops of `dealCards` go through the places of the game. -/
theorem dealCards_eq (memory : Nat → Nat) (g : Game) (rng : ρ) (state : State) :
    dealCards genrand memory g rng state =
      ((dealPlaces g).foldlM (dealTo genrand)
        { rng := rng
          deck := fun i => (deckCards g).getD i (memory i)
          numCards := (deckCards g).length
          state := state }).map fun d => (d.state, d.rng) := by
  have hboard : ∀ d : Dealing ρ, (List.range g.numRounds).foldlM (fun e r =>
      (List.range (g.numBoardCards r)).foldlM (fun e _ => (do
        let d ← dealTo genrand e.1 (.board e.2)
        pure (d, e.2 + 1) : Option (Dealing ρ × Nat))) e) (d, 0) =
      (((List.range (boardBefore g g.numRounds)).map Place.board).foldlM (dealTo genrand) d).map
        fun d => (d, 0 + boardBefore g g.numRounds) := by
    intro d
    have hlen : ((List.range g.numRounds).flatMap fun r => List.range (g.numBoardCards r)).length =
        boardBefore g g.numRounds := by
      simp [boardBefore, List.length_flatMap]
    rw [← foldlM_flatMap, foldlM_board, hlen, List.range_eq_range']
  unfold dealCards dealPlaces
  simp only [hboard, List.foldlM_append, foldlM_flatMap, List.foldlM_map]
  cases (List.range g.numPlayers).foldlM (fun d p =>
    (List.range g.numHoleCards).foldlM (fun d i => dealTo genrand d (.hole p i)) d)
    ({ rng := rng
       deck := fun i => (deckCards g).getD i (memory i)
       numCards := (deckCards g).length
       state := state } : Dealing ρ) with
  | none => rfl
  | some d =>
    simp only [Option.bind_eq_bind, Option.bind_some]
    cases (List.range (boardBefore g g.numRounds)).foldlM (fun d i => dealTo genrand d (.board i)) d with
    | none => rfl
    | some d => rfl

/-- Everything in a state but its cards. -/
def SameButCards (s t : State) : Prop := t = { s with holeCards := t.holeCards, boardCards := t.boardCards }

/-- The numbers that a dealing takes from the generator. -/
def outputsTo (genrand : ρ → BitVec 32 × ρ) (rng : ρ) (n : Nat) : List Nat :=
  (List.range n).map fun j => (output genrand rng j).toNat

theorem outputsTo_succ (rng : ρ) (n : Nat) :
    outputsTo genrand rng (n + 1) = (genrand rng).1.toNat :: outputsTo genrand (genrand rng).2 n := by
  unfold outputsTo
  rw [List.range_succ_eq_map, List.map_cons, List.map_map]
  congr 1

/-- Cards dealt to some places, one after another. -/
theorem dealTo_all {places : List Place} (hin : ∀ place ∈ places, place.InArray) (hnodup : places.Nodup)
    (d : Dealing ρ) (hlen : places.length ≤ d.numCards) :
    ∃ d', places.foldlM (dealTo genrand) d = some d' ∧
      places.map d'.state.cardAt =
        drawn d.deck d.numCards (reduced d.numCards (outputsTo genrand d.rng places.length)) ∧
      (∀ place ∉ places, d'.state.cardAt place = d.state.cardAt place) ∧
      SameButCards d.state d'.state := by
  induction places generalizing d with
  | nil => exact ⟨d, rfl, rfl, fun _ _ => rfl, rfl⟩
  | cons place places ih =>
    obtain ⟨hnotMem, hnodup⟩ := List.nodup_cons.mp hnodup
    rw [List.length_cons] at hlen
    obtain ⟨card, hcard⟩ : ∃ card, card = d.deck ((genrand d.rng).1.toNat % d.numCards) := ⟨_, rfl⟩
    have hdeal : dealTo genrand d place = some
        { rng := (genrand d.rng).2
          deck := fillGap d.deck d.numCards ((genrand d.rng).1.toNat % d.numCards)
          numCards := d.numCards - 1
          state := d.state.setCard card place } := by
      rw [dealTo, if_pos (hin place List.mem_cons_self), dealCard, if_neg (by omega), hcard]
      rfl
    obtain ⟨d', hrun, hcards, hothers, hsame⟩ := ih (fun p hp => hin p (List.mem_cons_of_mem _ hp)) hnodup
      { rng := (genrand d.rng).2
        deck := fillGap d.deck d.numCards ((genrand d.rng).1.toNat % d.numCards)
        numCards := d.numCards - 1
        state := d.state.setCard card place } (by simp only; omega)
    refine ⟨d', ?_, ?_, fun other hother => ?_, ?_⟩
    · rw [List.foldlM_cons, hdeal]
      exact hrun
    · rw [List.length_cons, outputsTo_succ, reduced, drawn, List.map_cons, hcards, hothers place hnotMem,
        State.cardAt_setCard_self, hcard]
    · rw [List.mem_cons, not_or] at hother
      obtain ⟨hne, hrest⟩ := hother
      rw [hothers other hrest, State.cardAt_setCard_of_ne _ _ hne]
    · unfold SameButCards at hsame ⊢
      cases place <;> exact hsame

end

/-- What an accepted game promises about its deck. -/
structure Game.DeckFits (g : Game) : Prop where
  suits : g.numSuits ≤ maxSuits
  ranks : g.numRanks ≤ maxRanks
  enough : g.totalCards ≤ g.numSuits * g.numRanks

theorem readGame_deckFits {lines : List GameLine} {g : Game} (h : readGame lines = some g) : g.DeckFits := by
  obtain ⟨r, -, h⟩ := Option.bind_eq_some_iff.mp h
  simp only [GameReader.sanityChecks, Option.bind_eq_bind, Option.bind_eq_some_iff, Option.guard_eq_some',
    Option.pure_def, Option.some.injEq, exists_and_left, exists_const] at h
  obtain ⟨-, -, -, -, -, -, -, hsuits, hranks, -, -, htotal, rfl⟩ := h
  exact ⟨hsuits.2, hranks.2, htotal⟩

theorem deckCards_length (g : Game) : (deckCards g).length = g.numSuits * g.numRanks := by
  simp [deckCards, List.length_flatMap]

theorem makeCard_inj {r r' s s' : Nat} (hs : s < maxSuits) (hs' : s' < maxSuits) (h : makeCard r s = makeCard r' s') :
    r = r' ∧ s = s' := by
  unfold makeCard maxSuits at *
  omega

theorem deckCards_nodup {g : Game} (hdeck : g.DeckFits) : (deckCards g).Nodup := by
  have hsuits := hdeck.suits
  have hsuit : ∀ s ∈ List.range' (maxSuits - g.numSuits) g.numSuits, s < maxSuits := by
    intro s hs
    have := (List.mem_range'_1.mp hs).2
    omega
  refine List.nodup_flatMap.mpr ⟨fun s hs => List.Nodup.map_on ?_ List.nodup_range', ?_⟩
  · intro r _ r' _ h
    exact (makeCard_inj (hsuit s hs) (hsuit s hs) h).1
  · refine List.Pairwise.imp_of_mem (fun {s s'} hs hs' hne => ?_) List.nodup_range'
    intro card hcard hcard'
    obtain ⟨r, -, rfl⟩ := List.mem_map.mp hcard
    obtain ⟨r', -, h⟩ := List.mem_map.mp hcard'
    exact hne (makeCard_inj (hsuit s' hs') (hsuit s hs) h).2.symm

theorem deckCards_getD_differ {g : Game} (hdeck : g.DeckFits) (memory : Nat → Nat) :
    PlacesDiffer (fun i => (deckCards g).getD i (memory i)) (deckCards g).length := by
  intro i hi j hj h
  simp only [List.getD_eq_getElem _ _ hi, List.getD_eq_getElem _ _ hj] at h
  exact (deckCards_nodup hdeck).getElem_inj_iff.mp h

theorem inPlaces_deckCards {g : Game} {memory : Nat → Nat} {card : Nat} :
    InPlaces (fun i => (deckCards g).getD i (memory i)) (deckCards g).length card ↔ card ∈ deckCards g := by
  rw [List.mem_iff_getElem]
  constructor
  · rintro ⟨i, hi, h⟩
    exact ⟨i, hi, (List.getD_eq_getElem _ _ hi).symm.trans h⟩
  · rintro ⟨i, hi, h⟩
    exact ⟨i, hi, (List.getD_eq_getElem _ _ hi).trans h⟩

theorem dealPlaces_inArray {g : Game} (wf : g.WellFormed) (hboard : boardBefore g g.numRounds ≤ maxBoardCards) :
    ∀ place ∈ dealPlaces g, place.InArray := by
  intro place hplace
  rcases List.mem_append.mp hplace with h | h
  · obtain ⟨p, hp, h⟩ := List.mem_flatMap.mp h
    obtain ⟨i, hi, rfl⟩ := List.mem_map.mp h
    exact ⟨(List.mem_range.mp hp).trans_le wf.players_le, (List.mem_range.mp hi).trans_le wf.holeCards_le⟩
  · obtain ⟨i, hi, rfl⟩ := List.mem_map.mp h
    exact (List.mem_range.mp hi).trans_le hboard

section

variable {ρ : Type*} {genrand : ρ → BitVec 32 × ρ} {lines : List GameLine} {g : Game}

/-- The dealt cards are drawn from the deck by the outputs of the generator. -/
theorem dealCards_drawn (genrand : ρ → BitVec 32 × ρ) (hread : readGame lines = some g)
    (hboard : boardBefore g g.numRounds ≤ maxBoardCards) (memory : Nat → Nat) (rng : ρ) (s : State) :
    ∃ t rng', dealCards genrand memory g rng s = some (t, rng') ∧
      dealtCards g t = drawn (fun i => (deckCards g).getD i (memory i)) (deckCards g).length
        (reduced (deckCards g).length (outputsTo genrand rng g.totalCards)) ∧
      (∀ place ∉ dealPlaces g, t.cardAt place = s.cardAt place) ∧ SameButCards s t := by
  have hlen : (dealPlaces g).length ≤ (deckCards g).length := by
    rw [dealPlaces_length, deckCards_length]
    exact (readGame_deckFits hread).enough
  obtain ⟨d, hrun, hcards, hothers, hsame⟩ := dealTo_all
    (dealPlaces_inArray (readGame_wellFormed hread) hboard) (dealPlaces_nodup g)
    { rng := rng
      deck := fun i => (deckCards g).getD i (memory i)
      numCards := (deckCards g).length
      state := s } hlen
  rw [dealPlaces_length] at hcards
  exact ⟨d.state, d.rng, by rw [dealCards_eq, hrun]; rfl, hcards, hothers, hsame⟩

theorem outputsTo_length (rng : ρ) (n : Nat) : (outputsTo genrand rng n).length = n := by
  rw [outputsTo, List.length_map, List.length_range]

theorem picksFit_outputsTo (genrand : ρ → BitVec 32 × ρ) (hread : readGame lines = some g) (rng : ρ) :
    PicksFit (deckCards g).length (reduced (deckCards g).length (outputsTo genrand rng g.totalCards)) := by
  apply picksFit_reduced
  rw [outputsTo_length, deckCards_length]
  exact (readGame_deckFits hread).enough

/-- Whatever the generator puts out, the hole cards of all players and the board are different cards of the
game's deck, and nothing else of the state changes. -/
theorem dealCards_distinct (hread : readGame lines = some g) (hboard : boardBefore g g.numRounds ≤ maxBoardCards)
    (genrand : ρ → BitVec 32 × ρ) (memory : Nat → Nat) (rng : ρ) (s : State) :
    ∃ t rng', dealCards genrand memory g rng s = some (t, rng') ∧
      (dealtCards g t).Nodup ∧ (∀ card ∈ dealtCards g t, card ∈ deckCards g) ∧
      (∀ place ∉ dealPlaces g, t.cardAt place = s.cardAt place) ∧ SameButCards s t := by
  obtain ⟨t, rng', hdeal, hcards, hothers, hsame⟩ := dealCards_drawn genrand hread hboard memory rng s
  have hdiffer := deckCards_getD_differ (readGame_deckFits hread) memory
  refine ⟨t, rng', hdeal, ?_, fun card hcard => ?_, hothers, hsame⟩
  · rw [hcards]
    exact drawn_nodup hdiffer (picksFit_outputsTo genrand hread rng)
  · rw [hcards] at hcard
    exact inPlaces_deckCards.mp (inPlaces_of_mem_drawn hdiffer (picksFit_outputsTo genrand hread rng) hcard)

theorem readGame_twoRoundFile : readGame twoRoundFile = some twoRoundGame := (Option.some_get _).symm

theorem dealCards_distinct_genrand :
    ∃ t rng', dealCards genrandInt32 (fun _ => 0) twoRoundGame (initGenrand ⟨Vector.replicate rngN 0#32, 0⟩ 5489#32)
        blankState = some (t, rng') ∧
      (dealtCards twoRoundGame t).Nodup ∧ (∀ card ∈ dealtCards twoRoundGame t, card ∈ deckCards twoRoundGame) ∧
      (∀ place ∉ dealPlaces twoRoundGame, t.cardAt place = blankState.cardAt place) ∧ SameButCards blankState t :=
  dealCards_distinct readGame_twoRoundFile (by decide) genrandInt32 (fun _ => 0) _ blankState

end

/-- A generator that puts out given numbers. -/
def tape {k : Nat} (numbers : Fin k → Fin (2 ^ 32)) (j : Nat) : BitVec 32 × Nat :=
  (if h : j < k then BitVec.ofFin (numbers ⟨j, h⟩) else 0#32, j + 1)

theorem output_tape {k : Nat} (numbers : Fin k → Fin (2 ^ 32)) (j start : Nat) :
    output (tape numbers) start j = (tape numbers (start + j)).1 := by
  induction j generalizing start with
  | zero => rfl
  | succ j ih =>
    have hnext : (tape numbers start).2 + j = start + (j + 1) := by
      rw [tape, Nat.add_assoc, Nat.add_comm 1 j]
    rw [output_succ, ih, hnext]

theorem outputsTo_tape {k : Nat} (numbers : Fin k → Fin (2 ^ 32)) :
    outputsTo (tape numbers) 0 k = List.ofFn fun j => (numbers j : Nat) := by
  refine List.ext_getElem (by rw [outputsTo_length, List.length_ofFn]) fun j hj hj' => ?_
  have hjk : j < k := by rwa [outputsTo_length] at hj
  simp [outputsTo, output_tape, tape, hjk]

/-- The outputs of the generator that deal given cards. -/
def dealsOf (memory : Nat → Nat) (g : Game) (s : State) (cards : List Nat) : Finset (Fin g.totalCards → Fin (2 ^ 32)) :=
  Finset.univ.filter fun numbers =>
    (dealCards (tape numbers) memory g 0 s).map (fun r => dealtCards g r.1) = some cards

/-- The deal is fair but for the remainders: of all sequences of outputs, each deal gets between the product of the
rounded-down shares of its cards and that of these shares plus one. -/
theorem dealCards_fair {lines : List GameLine} {g : Game} (hread : readGame lines = some g)
    (hboard : boardBefore g g.numRounds ≤ maxBoardCards) (memory : Nat → Nat) (s : State) {cards : List Nat}
    (hnodup : cards.Nodup) (hdeck : ∀ card ∈ cards, card ∈ deckCards g) (hlen : cards.length = g.totalCards) :
    ∏ j : Fin g.totalCards, 2 ^ 32 / (g.numSuits * g.numRanks - j) ≤ (dealsOf memory g s cards).card ∧
      (dealsOf memory g s cards).card ≤ ∏ j : Fin g.totalCards, (2 ^ 32 / (g.numSuits * g.numRanks - j) + 1) := by
  have hdiffer := deckCards_getD_differ (readGame_deckFits hread) memory
  obtain ⟨picks, hpicks, hdrawn⟩ := exists_picks hdiffer hnodup
    (fun card hcard => inPlaces_deckCards.mpr (hdeck card hcard))
  have hpicksLen : picks.length = g.totalCards := by
    rw [← hlen, ← hdrawn, drawn_length]
  have hdeals : dealsOf memory g s cards = Finset.univ.filter fun numbers : Fin g.totalCards → Fin (2 ^ 32) =>
      reduced (deckCards g).length (List.ofFn fun j => (numbers j : Nat)) = picks := by
    ext numbers
    simp only [dealsOf, Finset.mem_filter, Finset.mem_univ, true_and]
    obtain ⟨t, rng', hdeal, hcards, -, -⟩ := dealCards_drawn (tape numbers) hread hboard memory 0 s
    rw [hdeal, Option.map_some, Option.some.injEq, hcards, outputsTo_tape, ← hdrawn]
    have hfit := picksFit_outputsTo (tape numbers) hread 0
    rw [outputsTo_tape] at hfit
    exact ⟨drawn_inj hdiffer hfit hpicks, fun h => by rw [h]⟩
  have hcount := card_reduced (N := 2 ^ 32) hpicks hpicksLen
  rw [← hdeals, deckCards_length] at hcount
  exact hcount

theorem dealCards_fair_first_cards :
    ∏ j : Fin twoRoundGame.totalCards, 2 ^ 32 / (twoRoundGame.numSuits * twoRoundGame.numRanks - j) ≤
        (dealsOf (fun _ => 0) twoRoundGame blankState ((deckCards twoRoundGame).take twoRoundGame.totalCards)).card ∧
      (dealsOf (fun _ => 0) twoRoundGame blankState ((deckCards twoRoundGame).take twoRoundGame.totalCards)).card ≤
        ∏ j : Fin twoRoundGame.totalCards, (2 ^ 32 / (twoRoundGame.numSuits * twoRoundGame.numRanks - j) + 1) :=
  dealCards_fair readGame_twoRoundFile (by decide) (fun _ => 0) blankState (by decide) (by decide) (by decide)

end MasterAI
