import MasterAI.BettingReplay
import MasterAI.PrintedText

namespace MasterAI

theorem stopsNumber_append {text rest : List Char} (ht : StopsNumber text) (hr : StopsNumber rest) :
    StopsNumber (text ++ rest) := by
  cases text with
  | nil => exact hr
  | cons c text => exact ht

theorem stopsNumber_flatMap {α : Type} {l : List α} {f : α → List Char}
    (h : ∀ x ∈ l, StopsNumber (f x)) : StopsNumber (l.flatMap f) := by
  induction l with
  | nil => simp [StopsNumber]
  | cons x l ih => exact stopsNumber_append (h x (by simp)) (ih fun y hy => h y (by simp [hy]))

theorem stopsNumber_char {c : Char} (h : c.isDigit = false) (rest : List Char) : StopsNumber (c :: rest) := by
  simp [StopsNumber, h]

theorem stopsNumber_actionText (g : Game) (a : Action) : StopsNumber (actionText g a) := by
  apply stopsNumber_char
  cases a.type <;> decide

theorem stopsNumber_roundText (g : Game) (s : State) (i : Nat) : StopsNumber (roundText g s i) :=
  stopsNumber_flatMap fun _ _ => stopsNumber_actionText g _

theorem stopsNumber_separatedText {l : List Nat} {separator : Char} {text : Nat → List Char}
    (hs : separator.isDigit = false) (ht : ∀ i ∈ l, StopsNumber (text i)) :
    StopsNumber (separatedText l separator text) := by
  apply stopsNumber_flatMap
  intro i hi
  apply stopsNumber_append _ (ht i hi)
  split
  · exact stopsNumber_char hs []
  · simp [StopsNumber]

theorem charToAction_actionChar {a : ActionType} (h : a ≠ .invalid) :
    charToAction (actionChar a) = a ∧ actionChar a ≠ ':' ∧ actionChar a ≠ '/' := by
  cases a with
  | fold => decide
  | call => decide
  | raise => decide
  | invalid => exact absurd rfl h

theorem readAction_actionText {g : Game} {a : Action} (h : Readable g a) {rest : List Char}
    (hr : StopsNumber rest) : readAction g (actionText g a ++ rest) = some (reread g a, rest) := by
  obtain ⟨hchar, -, -⟩ := charToAction_actionChar h.1
  unfold actionText readAction reread
  simp only [List.cons_append, hchar]
  by_cases hraise : a.type = .raise ∧ g.bettingType = .noLimitBetting
  · rw [if_pos hraise, if_pos ⟨hraise.2, hraise.1⟩, if_pos hraise, scanInt32_printInt (h.2 hraise.2 hraise.1) hr]
    simp [← hraise.1]
  · rw [if_neg hraise, if_neg fun hb => hraise ⟨hb.2, hb.1⟩, if_neg hraise]
    rfl

/-- Reading the text of a list of actions replays them, with one pass for each. -/
theorem readBettingLoop_actions {g : Game} {l : List (Action × Nat)} (h : ∀ e ∈ l, Readable g e.1)
    {rest : List Char} (hr : StopsNumber rest) (fuel : Nat) (s : State) :
    readBettingLoop g (l.length + fuel) (l.flatMap (fun e => actionText g e.1) ++ rest) s =
      (replay g (l.map fun e => reread g e.1) s).bind (readBettingLoop g fuel rest) := by
  induction l generalizing s with
  | nil => simp [replay]
  | cons e l ih =>
    have htail := fun x hx => h x (List.mem_cons_of_mem e hx)
    obtain ⟨-, hcolon, hslash⟩ := charToAction_actionChar (h e (by simp)).1
    have hread := readAction_actionText (h e (by simp)) (stopsNumber_append
      (stopsNumber_flatMap fun x (_ : x ∈ l) => stopsNumber_actionText g x.1) hr)
    rw [List.flatMap_cons, List.append_assoc, List.length_cons,
      show l.length + 1 + fuel = l.length + fuel + 1 by omega]
    rw [show actionText g e.1 = actionChar e.1.type :: (actionText g e.1).tail from rfl, List.cons_append]
      at hread ⊢
    simp only [readBettingLoop, hcolon, hslash, if_false, hread, List.map_cons, replay, Option.bind_eq_bind,
      Option.bind_some, Option.bind_assoc, ih htail]

/-- The passes that the betting of the rounds in `l` takes. -/
def roundPasses (s : State) (l : List Nat) : Nat :=
  (l.map fun i => (if i ≠ 0 then 1 else 0) + (s.action i).length).sum

theorem roundPasses_le (g : Game) (s : State) (l : List Nat) :
    roundPasses s l ≤ (separatedText l '/' (roundText g s)).length := by
  induction l with
  | nil => simp [roundPasses, separatedText]
  | cons i l ih =>
    have hround : (s.action i).length ≤ (roundText g s i).length := by
      unfold roundText
      induction s.action i with
      | nil => simp
      | cons e es ihe =>
        simp only [List.flatMap_cons, List.length_append, List.length_cons, actionText] at ihe ⊢
        omega
    simp only [roundPasses, separatedText, List.map_cons, List.sum_cons, List.flatMap_cons,
      List.length_append] at ih ⊢
    split <;> simp only [List.length_cons, List.length_nil] <;> omega

theorem readBettingLoop_rounds {g : Game} {s : State} {l : List Nat}
    (h : ∀ e ∈ l.flatMap s.action, Readable g e.1) {rest : List Char} (hr : StopsNumber rest) (fuel : Nat)
    (t : State) :
    readBettingLoop g (roundPasses s l + fuel) (separatedText l '/' (roundText g s) ++ rest) t =
      (replay g ((l.flatMap s.action).map fun e => reread g e.1) t).bind (readBettingLoop g fuel rest) := by
  induction l generalizing t with
  | nil => simp [roundPasses, separatedText, replay]
  | cons i l ih =>
    have hhead : ∀ e ∈ s.action i, Readable g e.1 := fun e he => h e (by simp [he])
    have htail : ∀ e ∈ l.flatMap s.action, Readable g e.1 := fun e he => h e (by simp_all)
    have hstop : StopsNumber (separatedText l '/' (roundText g s) ++ rest) :=
      stopsNumber_append (stopsNumber_separatedText (by decide) fun i _ => stopsNumber_roundText g s i) hr
    have hround : readBettingLoop g ((s.action i).length + (roundPasses s l + fuel))
        (roundText g s i ++ (separatedText l '/' (roundText g s) ++ rest)) t =
        (replay g (((i :: l).flatMap s.action).map fun e => reread g e.1) t).bind
          (readBettingLoop g fuel rest) := by
      rw [roundText, readBettingLoop_actions hhead hstop, List.flatMap_cons, List.map_append,
        replay_append, Option.bind_assoc]
      congr 1
      funext u
      exact ih htail u
    rw [← hround]
    by_cases hi : i = 0
    · subst hi
      simp [roundPasses, separatedText, Nat.add_assoc]
    · have hpasses : roundPasses s (i :: l) + fuel = (s.action i).length + (roundPasses s l + fuel) + 1 := by
        simp only [roundPasses, List.map_cons, List.sum_cons, if_pos hi]
        omega
      have htext : separatedText (i :: l) '/' (roundText g s) ++ rest =
          '/' :: (roundText g s i ++ (separatedText l '/' (roundText g s) ++ rest)) := by
        simp [separatedText, hi]
      rw [hpasses, htext]
      simp [readBettingLoop]

theorem readBetting_text {g : Game} {s t t' : State} (h : ∀ e ∈ s.history, Readable g e.1)
    (hreplay : replay g (s.history.map fun e => reread g e.1) t = some t') (rest : List Char) :
    readBetting g (separatedText (List.range (s.round + 1)) '/' (roundText g s) ++ ':' :: rest) t =
      some (t', rest) := by
  have hpasses := roundPasses_le g s (List.range (s.round + 1))
  obtain ⟨fuel, hfuel⟩ := Nat.exists_eq_add_of_le (show roundPasses s (List.range (s.round + 1)) + 1 ≤
    (separatedText (List.range (s.round + 1)) '/' (roundText g s) ++ ':' :: rest).length + 1 by
      simp only [List.length_append, List.length_cons]; omega)
  unfold readBetting
  rw [hfuel, Nat.add_assoc, readBettingLoop_rounds h (stopsNumber_char (by decide) rest)]
  unfold State.history at hreplay
  rw [hreplay, Nat.add_comm 1 fuel]
  simp [readBettingLoop]

/-- The text does not start with a card. -/
def NoCard (text : List Char) : Prop := ∀ c ∈ text.head?, c = '|' ∨ c = '/'

theorem readCard_cardText {card : Nat} (h : card < 52) (rest : List Char) :
    readCard (cardText card ++ rest) = some (card, rest) := by
  have hall : ∀ card < 52, rankChars.idxOf? (rankChars.getD (rankOfCard card) '?').toUpper = some (card / 4) ∧
      suitChars.idxOf? (suitChars.getD (suitOfCard card) '?').toLower = some (card % 4) := by decide
  obtain ⟨hrank, hsuit⟩ := hall card h
  have hmake : makeCard (card / 4) (card % 4) = card := by
    simp only [makeCard, maxSuits]
    omega
  simp only [cardText, List.cons_append, List.nil_append, readCard, hrank, hsuit, Option.bind_eq_bind,
    Option.bind_some, hmake, Option.pure_def]

theorem readCards_text (cards : List Nat) (h : ∀ card ∈ cards, card < 52) (rest : List Char) :
    readCards cards.length (cards.flatMap cardText ++ rest) = (cards, rest) := by
  induction cards with
  | nil => rfl
  | cons card cards ih =>
    rw [List.flatMap_cons, List.append_assoc, List.length_cons]
    simp only [readCards, readCard_cardText (h card (by simp)), ih fun c hc => h c (by simp [hc])]

theorem readCards_cardsText (n : Nat) (cards : Nat → Nat) (h : ∀ i < n, cards i < 52) (rest : List Char) :
    readCards n (cardsText n cards ++ rest) = ((List.range n).map cards, rest) := by
  have hread := readCards_text ((List.range n).map cards) (by
    intro card hc
    obtain ⟨i, hi, rfl⟩ := List.mem_map.mp hc
    exact h i (List.mem_range.mp hi)) rest
  simpa [cardsText] using hread

theorem readCard_noCard {text : List Char} (h : NoCard text) : readCard text = none := by
  cases text with
  | nil => rfl
  | cons c text =>
    cases text with
    | nil => rfl
    | cons d text =>
      have hbar : rankChars.idxOf? ('|').toUpper = none := by decide
      have hslash : rankChars.idxOf? ('/').toUpper = none := by decide
      rcases h c rfl with rfl | rfl
      · simp only [readCard, hbar, Option.bind_eq_bind, Option.bind_none]
      · simp only [readCard, hslash, Option.bind_eq_bind, Option.bind_none]

theorem readCards_noCard (n : Nat) {text : List Char} (h : NoCard text) : readCards n text = ([], text) := by
  cases n with
  | zero => rfl
  | succ n => simp [readCards, readCard_noCard h]

theorem storeCards_range {start n : Nat} {held cards : Nat → Nat} {k : Nat} :
    storeCards start ((List.range n).map held) cards k =
      if start ≤ k ∧ k < start + n then held (k - start) else cards k := by
  unfold storeCards
  by_cases hlo : start ≤ k
  · by_cases hhi : k < start + n
    · rw [if_pos hlo, if_pos ⟨hlo, hhi⟩, List.getD_eq_getElem?_getD, List.getElem?_map,
        List.getElem?_range (by omega)]
      rfl
    · rw [if_pos hlo, if_neg fun h => hhi h.2, List.getD_eq_getElem?_getD, List.getElem?_eq_none (by simp; omega)]
      rfl
  · rw [if_neg hlo, if_neg fun h => hlo h.1]

theorem skipSeparator_text (i : Nat) (separator : Char) (text : List Char) :
    skipSeparator i separator ((if i ≠ 0 then [separator] else []) ++ text) = text := by
  by_cases hi : i = 0
  · simp [skipSeparator, hi]
  · simp [skipSeparator, hi]

theorem noCard_separatedText {l : List Nat} {separator : Char} {text : Nat → List Char} {rest : List Char}
    (hs : separator = '|' ∨ separator = '/') (hl : ∀ i ∈ l, i ≠ 0) (hr : NoCard rest) :
    NoCard (separatedText l separator text ++ rest) := by
  cases l with
  | nil => simpa [separatedText] using hr
  | cons i l =>
    have hi := hl i (by simp)
    simpa [separatedText, NoCard, hi] using hs

theorem separatedText_cons (i : Nat) (l : List Nat) (separator : Char) (text : Nat → List Char)
    (rest : List Char) :
    separatedText (i :: l) separator text ++ rest =
      (if i ≠ 0 then [separator] else []) ++ (text i ++ (separatedText l separator text ++ rest)) := by
  simp [separatedText]

/-- The hole cards of the players in `l` are read back where they are shown. -/
theorem readHoleCardsLoop_text {g : Game} {s : State} (player : Nat) (wf : g.WellFormed) {l : List Nat}
    (hl : l.Nodup) (hzero : ∀ p ∈ l.tail, p ≠ 0)
    (hcards : ∀ p ∈ l, ∀ i < g.numHoleCards, s.holeCards p i < 52) {rest : List Char} (hr : NoCard rest)
    (cards : Nat → Nat → Nat) :
    ∃ cards', readHoleCardsLoop g l (separatedText l '|' (holeText g s player) ++ rest) cards =
        some (cards', rest) ∧ (∀ p ∉ l, cards' p = cards p) ∧
      ∀ p ∈ l, cardsShown g s player p → ∀ i < g.numHoleCards, cards' p i = s.holeCards p i := by
  induction l generalizing cards with
  | nil => exact ⟨cards, by simp [readHoleCardsLoop, separatedText], by simp, by simp⟩
  | cons p l ih =>
    obtain ⟨hp, hl⟩ := List.nodup_cons.mp hl
    have hstop : NoCard (separatedText l '|' (holeText g s player) ++ rest) :=
      noCard_separatedText (Or.inl rfl) hzero hr
    have hnext := ih hl (fun q hq => hzero q (List.mem_of_mem_tail hq)) (fun q hq => hcards q (by simp [hq]))
    simp only [readHoleCardsLoop, separatedText_cons, skipSeparator_text]
    by_cases hshown : cardsShown g s player p = true
    · have hread := readCards_cardsText _ _ (hcards p (by simp))
        (separatedText l '|' (holeText g s player) ++ rest)
      obtain ⟨cards', hloop, hother, hin⟩ := hnext (Function.update cards p
        (storeCards 0 ((List.range g.numHoleCards).map (s.holeCards p)) (cards p)))
      have hpos := wf.holeCards_pos
      refine ⟨cards', ?_, fun q hq => ?_, fun q hq hqs i hi => ?_⟩
      · simp only [holeText, hshown, if_true, hread, List.length_map, List.length_range, ne_eq,
          not_true_eq_false, if_false, show ¬g.numHoleCards = 0 by omega]
        exact hloop
      · obtain ⟨hqp, hql⟩ := not_or.mp (List.mem_cons.not.mp hq)
        rw [hother q hql, Function.update_of_ne hqp]
      · rcases List.mem_cons.mp hq with rfl | hq
        · rw [hother q hp, Function.update_self, storeCards_range, if_pos ⟨by omega, by omega⟩]
          rfl
        · exact hin q hq hqs i hi
    · obtain ⟨cards', hloop, hother, hin⟩ := hnext cards
      refine ⟨cards', ?_, fun q hq => hother q fun h => hq (by simp [h]), fun q hq hqs i hi => ?_⟩
      · simpa [holeText, hshown, readCards_noCard _ hstop] using hloop
      · rcases List.mem_cons.mp hq with rfl | hq
        · exact absurd hqs hshown
        · exact hin q hq hqs i hi

theorem range_tail_ne_zero {n : Nat} : ∀ p ∈ (List.range n).tail, p ≠ 0 := by
  intro p hp
  cases n with
  | zero => simp at hp
  | succ n =>
    rw [List.range_succ_eq_map, List.tail_cons] at hp
    obtain ⟨q, -, rfl⟩ := List.mem_map.mp hp
    omega

/-- The number of board cards dealt before a round. -/
def boardBefore (g : Game) (round : Nat) : Nat := ((List.range round).map g.numBoardCards).sum

theorem boardBefore_succ (g : Game) (round : Nat) :
    boardBefore g (round + 1) = boardBefore g round + g.numBoardCards round := by
  simp [boardBefore, List.range_succ]

theorem boardBefore_mono (g : Game) {m n : Nat} (h : m ≤ n) : boardBefore g m ≤ boardBefore g n := by
  induction n, h using Nat.le_induction with
  | base => exact le_rfl
  | succ n _ ih => exact ih.trans (by rw [boardBefore_succ]; omega)

/-- The board cards of `m` rounds from round `k` on are read back. -/
theorem readBoardCardsLoop_text {g : Game} {s : State} {k m : Nat} (rest : List Char) (hsmall : boardBefore g (k + m) < 256)
    (hcards : ∀ i < boardBefore g (k + m), s.boardCards i < 52)
    (cards : Nat → Nat) :
    ∃ cards', readBoardCardsLoop g (List.range' k m)
        (separatedText (List.range' k m) '/' (boardText g s) ++ rest) cards = some (cards', rest) ∧
      (∀ i < boardBefore g k, cards' i = cards i) ∧
      ∀ i, boardBefore g k ≤ i → i < boardBefore g (k + m) → cards' i = s.boardCards i := by
  induction m generalizing k cards with
  | zero =>
    exact ⟨cards, by simp [readBoardCardsLoop, separatedText], fun _ _ => rfl, fun i h1 h2 => by
      rw [Nat.add_zero] at h2; omega⟩
  | succ m ih =>
    have hsucc := boardBefore_succ g k
    have hmono := boardBefore_mono g (show k + 1 ≤ k + (m + 1) by omega)
    have hstart : bcStart g k = boardBefore g k := Nat.mod_eq_of_lt (by unfold boardBefore at *; omega)
    have hshift : k + (m + 1) = k + 1 + m := by omega
    rw [hshift] at hsmall hcards hmono ⊢
    have hread := readCards_cardsText (g.numBoardCards k)
      (fun j => s.boardCards (bcStart g k + j)) (fun j hj => hcards _ (by omega))
      (separatedText (List.range' (k + 1) m) '/' (boardText g s) ++ rest)
    obtain ⟨cards', hloop, hbefore, hafter⟩ := ih hsmall hcards (storeCards (bcStart g k)
      ((List.range (g.numBoardCards k)).map fun j => s.boardCards (bcStart g k + j)) cards)
    refine ⟨cards', ?_, fun i hi => ?_, fun i h1 h2 => ?_⟩
    · rw [List.range'_succ]
      simp only [readBoardCardsLoop, separatedText_cons, skipSeparator_text]
      rw [boardText, hread]
      simpa using hloop
    · rw [hbefore i (by omega), storeCards_range, if_neg (by omega)]
    · by_cases hi : i < boardBefore g (k + 1)
      · rw [hbefore i hi, storeCards_range, if_pos ⟨by omega, by omega⟩]
        congr 1
        omega
      · exact hafter i (by omega) h2

/-- The cards of a deal that a text can name. -/
structure Dealt (g : Game) (s : State) : Prop where
  holeCards : ∀ p < g.numPlayers, ∀ i < g.numHoleCards, s.holeCards p i < 52
  boardCards : ∀ i < boardBefore g g.numRounds, s.boardCards i < 52

theorem noCard_boardText {g : Game} {s : State} (hfirst : g.numBoardCards 0 = 0) :
    NoCard (separatedText (List.range (s.round + 1)) '/' (boardText g s)) := by
  have hempty : boardText g s 0 = [] := by simp [boardText, cardsText, hfirst]
  rw [List.range_succ_eq_map, ← List.append_nil (separatedText _ _ _), separatedText_cons, hempty]
  have htail : NoCard (separatedText ((List.range s.round).map Nat.succ) '/' (boardText g s) ++ []) :=
    noCard_separatedText (Or.inr rfl) (by simp) (by simp [NoCard])
  simpa using htail

/-- Reading the text of a state over any other content gives the betting and the cards shown. -/
theorem readStateCommon_text {g : Game} {s s' prior : State} (player : Nat) (wf : g.WellFormed)
    (hfirst : g.numBoardCards 0 = 0) (hboard : boardBefore g g.numRounds ≤ maxBoardCards)
    (hdealt : Dealt g s) (hreadable : ∀ e ∈ s.history, Readable g e.1)
    (hreplay : replay g (s.history.map fun e => reread g e.1) (initState g s.handId prior) = some s')
    (same : SameBetting g s s') (hround : s.round < g.numRounds) :
    ∃ t, readStateCommon g (':' :: (printNat s.handId.toNat ++ (':' ::
          (separatedText (List.range (s.round + 1)) '/' (roundText g s) ++ (':' ::
            (separatedText (List.range g.numPlayers) '|' (holeText g s player) ++
              separatedText (List.range (s.round + 1)) '/' (boardText g s))))))) prior = some (t, []) ∧
      SameBetting g s t ∧ (∀ i < boardBefore g (s.round + 1), t.boardCards i = s.boardCards i) ∧
      ∀ p < g.numPlayers, cardsShown g s player p → ∀ i < g.numHoleCards, t.holeCards p i = s.holeCards p i := by
  have hbefore := boardBefore_mono g (show s.round + 1 ≤ g.numRounds by omega)
  obtain ⟨hole, hhole, -, hheld⟩ := readHoleCardsLoop_text (s := s) player wf List.nodup_range
    range_tail_ne_zero (fun p hp => hdealt.holeCards p (List.mem_range.mp hp)) (noCard_boardText (s := s) hfirst)
    s'.holeCards
  obtain ⟨board, hread, -, hdealtBoard⟩ := readBoardCardsLoop_text (g := g) (s := s) (k := 0)
    (m := s.round + 1) [] (by rw [Nat.zero_add]; unfold maxBoardCards at hboard; omega)
    (fun i hi => hdealt.boardCards i (by rw [Nat.zero_add] at hi; omega)) s'.boardCards
  rw [← List.range_eq_range', List.append_nil] at hread
  refine ⟨{ s' with holeCards := hole, boardCards := board }, ?_, ?_, ?_, ?_⟩
  · have hid : UInt32.ofNat s.handId.toNat = s.handId := UInt32.ofNat_toNat
    have hscan := scanUnsigned_printNat 32 s.handId.toNat_lt
      (by have := s.handId.toNat_lt; omega) (stopsNumber_char (c := ':') (by decide)
        (separatedText (List.range (s.round + 1)) '/' (roundText g s) ++ (':' ::
          (separatedText (List.range g.numPlayers) '|' (holeText g s player) ++
            separatedText (List.range (s.round + 1)) '/' (boardText g s)))))
    have hbetting := readBetting_text hreadable hreplay
      (separatedText (List.range g.numPlayers) '|' (holeText g s player) ++
        separatedText (List.range (s.round + 1)) '/' (boardText g s))
    simp [readStateCommon, scanLiteral, hscan, hid, hbetting, readHoleCards, hhole, readBoardCards, same.round,
      hread]
  · exact ⟨same.handId, same.maxSpent, same.minNoLimitRaiseTo, same.round, same.finished, same.spent,
      same.playerFolded, same.action⟩
  · intro i hi
    exact hdealtBoard i (by simp [boardBefore]) (by rwa [Nat.zero_add])
  · exact fun p hp hshown => hheld p (List.mem_range.mpr hp) hshown

theorem Move.handId_eq {g : Game} {s t : State} {a : Action} (move : Move g s a t) : t.handId = s.handId := by
  obtain ⟨_, _, _, -, hdo⟩ := move
  obtain ⟨-, -, u, hu, same, -⟩ := doAction_cases hdo
  rw [same.handId]
  rcases bet_cases hu with ⟨-, rfl⟩ | ⟨-, rfl⟩ | ⟨-, -, -, -, rfl⟩ | ⟨-, -, rfl⟩ <;> rfl

/-- The betting can be replayed from the start of the same hand over the content `prior`. -/
def Replays (g : Game) (prior s : State) : Prop := ReplayInv g (initState g s.handId prior) s

theorem replays_of_run {g : Game} (wf : g.WellFormed) (prior : State) {trace : List (Transition State Action)}
    {s : State} (run : BettingRun g trace s) (bare : ∀ m ∈ trace, LimitRaiseBare g m) :
    Replays g prior s := by
  refine run.invariant bare ?_ ?_
  · rintro s ⟨handId, before, rfl⟩
    exact ReplayInv.init wf handId before prior
  · intro m move hbare inv
    rw [Replays, move.handId_eq]
    exact inv.step wf move hbare

theorem matchStatesEqual_of {g : Game} {m m' : MatchState} (hround : m.state.round < g.numRounds)
    (hview : m'.viewingPlayer = m.viewingPlayer) (same : SameBetting g m.state m'.state)
    (hboard : ∀ i < sumBoardCards g m.state.round, m'.state.boardCards i = m.state.boardCards i)
    (hheld : ∀ i < g.numHoleCards,
      m'.state.holeCards m.viewingPlayer i = m.state.holeCards m.viewingPlayer i) :
    matchStatesEqual g m m' = true := by
  have haction : ∀ r < m.state.round + 1, m'.state.action r = m.state.action r :=
    fun r hr => same.action r (by omega)
  simp only [matchStatesEqual, statesEqualCommon, hview, same.handId, same.round, decide_true, Bool.true_and,
    Bool.and_eq_true, List.all_eq_true, List.mem_range, decide_eq_true_eq]
  exact ⟨⟨fun r hr => by rw [haction r hr], fun i hi => (hboard i hi).symm⟩, fun i hi => (hheld i hi).symm⟩

/-- What `printMatchState` writes is read back whole, over any earlier content. -/
theorem readMatchState_printMatchState {lines : List GameLine} {g : Game} (hgame : readGame lines = some g)
    (hfirst : g.numBoardCards 0 = 0) (hboard : boardBefore g g.numRounds ≤ maxBoardCards) {m : MatchState}
    (hview : m.viewingPlayer < g.numPlayers) (hdealt : Dealt g m.state)
    {trace : List (Transition State Action)} (run : BettingRun g trace m.state)
    (bare : ∀ move ∈ trace, LimitRaiseBare g move) {maxLen : Int} {text : List Char}
    (hprint : printMatchState g m maxLen = some text) (prior : MatchState) :
    ∃ m', readMatchState g text prior = some (text.length, m') ∧ matchStatesEqual g m m' = true ∧
      SameBetting g m.state m'.state := by
  have wf := readGame_wellFormed hgame
  have inv := replays_of_run wf prior.state run bare
  obtain ⟨s', hreplay, same⟩ := inv.replayed
  obtain ⟨t, ht, hsame, hboardCards, hheld⟩ := readStateCommon_text m.viewingPlayer wf hfirst
    hboard hdealt inv.readable hreplay same inv.rounds.round_lt
  have hsmall : sumBoardCards g m.state.round = boardBefore g (m.state.round + 1) := by
    have := boardBefore_mono g (show m.state.round + 1 ≤ g.numRounds from inv.rounds.round_lt)
    unfold maxBoardCards at hboard
    exact Nat.mod_eq_of_lt (by unfold boardBefore at *; omega)
  refine ⟨{ state := t, viewingPlayer := m.viewingPlayer }, ?_, ?_, hsame⟩
  · have hplayers := wf.players_le
    unfold maxPlayers at hplayers
    have hscan := fun rest => scanUnsigned_printNat 8 (n := m.viewingPlayer) (by omega) (by omega)
      (stopsNumber_char (c := ':') (by decide) rest)
    rw [prints_matchState g m maxLen text hprint]
    simp only [readMatchState, matchStateText, scanLiteral, List.prefix_append, if_true, List.drop_left,
      Option.bind_eq_bind, Option.bind_some, hscan, ht, hview, guard_true, Option.pure_def,
      List.length_nil, Nat.sub_zero]
  · refine matchStatesEqual_of inv.rounds.round_lt rfl hsame ?_ ?_
    · rw [hsmall]
      exact hboardCards
    · exact hheld m.viewingPlayer hview (by simp [cardsShown])

def twoRoundFile : List GameLine :=
  [.nolimit, .numPlayers [2], .numRounds [2], .stack [200, 300], .blind [50, 100], .firstPlayer [1, 2],
    .numSuits [4], .numRanks [13], .numHoleCards [2], .numBoardCards [0, 3]]

def twoRoundGame : Game := (readGame twoRoundFile).get (by decide)

/-- An all-in raise and a call end the hand in the first round, with the flop still to be shown. -/
def allInState : MatchState where
  state := (playFrom twoRoundGame [⟨.raise, 200⟩, ⟨.call, 0⟩]).2
  viewingPlayer := 1

theorem readMatchState_allInState :
    ∃ text m', printMatchState twoRoundGame allInState 100 = some text ∧
      readMatchState twoRoundGame text { state := blankState, viewingPlayer := 0 } = some (text.length, m') ∧
      matchStatesEqual twoRoundGame allInState m' = true := by
  have hprint : (printMatchState twoRoundGame allInState 100).isSome := by decide +kernel
  have run := (playFrom_run twoRoundGame [⟨.raise, 200⟩, ⟨.call, 0⟩]).weaken fun _ _ _ => StrictMove.move
  obtain ⟨m', hread, hequal, -⟩ := readMatchState_printMatchState (g := twoRoundGame) (m := allInState)
    (Option.some_get _).symm (by decide) (by decide) (by decide)
    ⟨by change ∀ p < 2, ∀ i < 2, _; decide +kernel, by change ∀ i < 3, _; decide +kernel⟩ run
    (fun _ _ hlimit => absurd hlimit (by decide)) (Option.some_get hprint).symm
    { state := blankState, viewingPlayer := 0 }
  exact ⟨_, m', (Option.some_get hprint).symm, hread, hequal⟩

end MasterAI
