import MasterAI.DealCards
import MasterAI.HandProgress

namespace MasterAI

/-- Why a text gives no state: it is refused, or an assertion fails or an index leaves its array. -/
inductive ReadFailure
  | refused
  | aborted
  deriving DecidableEq, Repr

def orRefused {α : Type*} : Option α → Except ReadFailure α
  | some a => .ok a
  | none => .error .refused

theorem scanNumber_length {text rest : List Char} {negative : Bool} {n : Nat}
    (h : scanNumber text = some (negative, n, rest)) : rest.length ≤ text.length := by
  have hspaces : (skipSpaces text).length ≤ text.length := (List.dropWhile_suffix _).length_le
  have hbody : ∀ sign : Prop, [Decidable sign] →
      (if sign then (skipSpaces text).tail else skipSpaces text).length ≤ text.length := by
    intro sign _
    split
    · rw [List.length_tail]
      omega
    · exact hspaces
  unfold scanNumber at h
  simp only [Option.ite_none_left_eq_some, Option.some.injEq, Prod.mk.injEq] at h
  obtain ⟨-, -, -, rfl⟩ := h
  exact (List.dropWhile_suffix _).length_le.trans (hbody _)

theorem readAction_length {g : Game} {c : Char} {text rest : List Char} {given : Action}
    (h : readAction g (c :: text) = some (given, rest)) : rest.length ≤ text.length := by
  unfold readAction scanInt32 at h
  simp only at h
  split at h
  · simp only [Option.map_map, Option.map_eq_some_iff, Prod.exists, Function.comp_apply, Prod.mk.injEq] at h
    obtain ⟨negative, n, rest', hscan, -, rfl⟩ := h
    exact scanNumber_length hscan
  · rw [(Prod.mk.inj (Option.some.inj h)).2]

/-- `readBetting`, where a failed assertion of `doAction` ends the program. -/
def readBettingChecked (g : Game) (text : List Char) (s : State) : Except ReadFailure (State × List Char) :=
  match text with
  | [] => .ok (s, [])
  | c :: text =>
    if c = ':' then .ok (s, text)
    else if c = '/' then readBettingChecked g text s
    else
      match h : readAction g (c :: text) with
      | none => .error .refused
      | some (given, rest) =>
        match isValidAction g s false given with
        | none => .error .refused
        | some a =>
          match doAction g a s with
          | none => .error .aborted
          | some (t, _) =>
            have := readAction_length h
            readBettingChecked g rest t
termination_by text.length

/-- `readBoardCards`, where a write past the end of `boardCards` ends the program. -/
def readBoardCardsChecked (g : Game) : List Nat → List Char → (Nat → Nat) →
    Except ReadFailure ((Nat → Nat) × List Char)
  | [], text, cards => .ok (cards, text)
  | i :: rounds, text, cards =>
    let (held, rest) := readCards (g.numBoardCards i) (skipSeparator i '/' text)
    if maxBoardCards < bcStart g i + held.length then .error .aborted
    else if held.length ≠ g.numBoardCards i then .error .refused
    else readBoardCardsChecked g rounds rest (storeCards (bcStart g i) held cards)

def readStateCommonChecked (g : Game) (text : List Char) (prior : State) :
    Except ReadFailure (State × List Char) := do
  let text ← orRefused (scanLiteral [':'] text)
  let (handId, text) ← orRefused (scanUnsigned 32 text)
  let s := initState g (UInt32.ofNat handId) prior
  orRefused (guard (text.head? = some ':'))
  let (s, text) ← readBettingChecked g text.tail s
  let (s, text) ← orRefused (readHoleCards g text s)
  let (cards, text) ← readBoardCardsChecked g (List.range (s.round + 1)) text s.boardCards
  pure ({ s with boardCards := cards }, text)

def readMatchStateChecked (g : Game) (text : List Char) (prior : MatchState) :
    Except ReadFailure (Nat × MatchState) := do
  let body ← orRefused (scanLiteral matchStateTag text)
  let (viewingPlayer, body) ← orRefused (scanUnsigned 8 body)
  orRefused (guard (viewingPlayer < g.numPlayers))
  let (s, rest) ← readStateCommonChecked g body prior.state
  pure (text.length - rest.length, { state := s, viewingPlayer := viewingPlayer })

variable {g : Game} {text rest : List Char} {prior s t : State} {trace : List (Transition State Action)}

/-- What keeps the betting of a text in bounds: somebody can act when a hand starts, no-limit chips leave room for
the next least raise, and the board fits its array. -/
structure Game.TextSafe (g : Game) : Prop where
  starts : ∃ p < g.numPlayers, g.blind p < g.stack p
  noLimit : g.bettingType = .noLimitBetting →
    ∀ p < g.numPlayers, 0 ≤ g.blind p ∧ g.blind p < g.stack p ∧ g.stack p < 1073741824
  board : boardBefore g g.numRounds ≤ maxBoardCards

theorem Game.TextSafe.stakes (safe : g.TextSafe) (hb : g.bettingType = .noLimitBetting) : NoLimitStakes g := by
  have h := safe.noLimit hb
  exact ⟨hb, fun p hp => (h p hp).1, fun p hp => (h p hp).2.1, fun p hp => (h p hp).2.2.le⟩

/-- The bets of a safe game while a text is read. -/
structure SafeBetting (g : Game) (s : State) : Prop where
  turn : TurnInv g s
  noLimit : g.bettingType = .noLimitBetting → NoLimitInv g s

theorem SafeBetting.init (wf : g.WellFormed) (safe : g.TextSafe) (handId : UInt32) (prior : State) :
    SafeBetting g (initState g handId prior) :=
  ⟨.init wf handId prior safe.starts, fun hb => .init wf (safe.stakes hb) handId prior⟩

theorem SafeBetting.step (wf : g.WellFormed) (safe : g.TextSafe) {a : Action} (h : SafeBetting g s)
    (move : StrictMove g s a t) : SafeBetting g t := by
  refine ⟨h.turn.step wf move.move, fun hb => ?_⟩
  have hfits : RaiseFits ⟨s, a, t⟩ := by
    intro ht
    obtain ⟨given, ended, hvalid, -⟩ := move
    obtain ⟨-, -, hsize⟩ := isValidAction_raise hvalid ht
    obtain ⟨hle, -⟩ := hsize hb
    have hp := h.turn.currentPlayer_lt (isValidAction_unfinished hvalid)
    have hstack := (safe.noLimit hb _ hp).2.2
    have hnonneg := (h.noLimit hb).maxSpent_nonneg
    unfold int32Max
    simp only
    omega
  exact (h.noLimit hb).step wf (safe.stakes hb) (m := ⟨s, a, t⟩) move.move hfits

/-- Accepted actions from the start of a hand, over what a structure held before. -/
abbrev RunOver (g : Game) (prior : State) :=
  StepRun (StrictMove g) fun s => ∃ handId, s = initState g handId prior

theorem safeBetting_of_run (wf : g.WellFormed) (safe : g.TextSafe) (run : RunOver g prior trace s) :
    SafeBetting g s := by
  refine run.always ?_ fun s a t move inv => inv.step wf safe move
  rintro s ⟨handId, rfl⟩
  exact .init wf safe handId prior

theorem SafeBetting.doAction_isSome (h : SafeBetting g s) {given a : Action}
    (hvalid : isValidAction g s false given = some a) : (doAction g a s).isSome :=
  MasterAI.doAction_isSome h.turn (fun hb => (h.noLimit hb).minRaise (isValidAction_unfinished hvalid)) hvalid

/-- Enough passes of the loop read what the recursion on the text reads. -/
theorem readBettingLoop_eq (g : Game) {fuel : Nat} (hfuel : text.length < fuel) (s : State) :
    readBettingLoop g fuel text s = (readBettingChecked g text s).toOption := by
  induction fuel generalizing text s with
  | zero => exact absurd hfuel (Nat.not_lt_zero _)
  | succ fuel ih =>
    cases text with
    | nil => rw [readBettingLoop, readBettingChecked]; rfl
    | cons c text =>
      rw [List.length_cons, Nat.add_lt_add_iff_right] at hfuel
      rw [readBettingLoop, readBettingChecked]
      by_cases hcolon : c = ':'
      · rw [if_pos hcolon, if_pos hcolon]
        rfl
      · rw [if_neg hcolon, if_neg hcolon]
        by_cases hslash : c = '/'
        · rw [if_pos hslash, if_pos hslash]
          exact ih hfuel s
        · rw [if_neg hslash, if_neg hslash]
          split
          next hread =>
            simp only [hread]
            rfl
          next given rest hread =>
            simp only [hread, Option.bind_eq_bind, Option.bind_some]
            cases isValidAction g s false given with
            | none => rfl
            | some a =>
              simp only [Option.bind_some]
              cases doAction g a s with
              | none => rfl
              | some r => exact ih ((readAction_length hread).trans_lt hfuel) r.1

/-- The outcome of reading a text into a state: the program goes on, and a result is reached by accepted moves. -/
structure SafeRead (g : Game) (prior : State) (text : List Char)
    (outcome : Except ReadFailure (State × List Char)) : Prop where
  goesOn : outcome ≠ .error .aborted
  reached : ∀ t rest, outcome = .ok (t, rest) → rest.length ≤ text.length ∧ ∃ trace, RunOver g prior trace t

theorem SafeRead.refused : SafeRead g prior text (.error .refused) := ⟨nofun, nofun⟩

theorem SafeRead.ok (hrest : rest.length ≤ text.length) (run : RunOver g prior trace s) :
    SafeRead g prior text (.ok (s, rest)) := by
  refine ⟨nofun, fun t rest' h => ?_⟩
  cases h
  exact ⟨hrest, trace, run⟩

theorem SafeRead.longer {outcome : Except ReadFailure (State × List Char)} (h : SafeRead g prior rest outcome)
    (hrest : rest.length ≤ text.length) : SafeRead g prior text outcome :=
  ⟨h.goesOn, fun t rest' ht => ⟨(h.reached t rest' ht).1.trans hrest, (h.reached t rest' ht).2⟩⟩

/-- Whatever betting a text spells, reading it makes accepted moves only and fails no assertion. -/
theorem readBettingChecked_safe (wf : g.WellFormed) (safe : g.TextSafe) (text : List Char)
    (run : RunOver g prior trace s) : SafeRead g prior text (readBettingChecked g text s) := by
  induction hn : text.length using Nat.strong_induction_on generalizing text s trace with
  | _ n ih =>
    subst hn
    cases text with
    | nil =>
      rw [readBettingChecked]
      exact .ok le_rfl run
    | cons c text =>
      have hlen : text.length < (c :: text).length := Nat.lt_succ_self _
      rw [readBettingChecked]
      by_cases hcolon : c = ':'
      · rw [if_pos hcolon]
        exact .ok hlen.le run
      · rw [if_neg hcolon]
        by_cases hslash : c = '/'
        · rw [if_pos hslash]
          exact (ih _ hlen text run rfl).longer hlen.le
        · rw [if_neg hslash]
          split
          · exact .refused
          next given rest' haction =>
            split
            · exact .refused
            next a hvalid =>
              obtain ⟨⟨u, ended⟩, hdo⟩ :=
                Option.isSome_iff_exists.mp ((safeBetting_of_run wf safe run).doAction_isSome hvalid)
              have hshort := readAction_length haction
              have hnext := ih _ (hshort.trans_lt hlen) rest' (run.next ⟨given, ended, hvalid, hdo⟩) rfl
              simp only [hdo]
              exact hnext.longer (hshort.trans hlen.le)

theorem RunOver.cards (run : RunOver g prior trace s) :
    s.holeCards = prior.holeCards ∧ s.boardCards = prior.boardCards := by
  refine run.always (P := fun s => s.holeCards = prior.holeCards ∧ s.boardCards = prior.boardCards) ?_
    fun s a t move h => ?_
  · rintro s ⟨handId, rfl⟩
    exact ⟨rfl, rfl⟩
  · obtain ⟨given, ended, -, hdo⟩ := move
    obtain ⟨-, -, u, hu, same, -⟩ := doAction_cases hdo
    rw [same.holeCards, same.boardCards]
    rcases bet_cases hu with ⟨-, rfl⟩ | ⟨-, rfl⟩ | ⟨-, -, -, -, rfl⟩ | ⟨-, -, rfl⟩ <;> exact h

theorem readCard_lt {card : Nat} (h : readCard text = some (card, rest)) :
    card < 52 ∧ rest.length ≤ text.length := by
  unfold readCard at h
  split at h
  next r c rest' =>
    simp only [Option.bind_eq_bind, Option.bind_eq_some_iff, Option.pure_def, Option.some.injEq, Prod.mk.injEq] at h
    obtain ⟨rank, hrank, suit, hsuit, rfl, rfl⟩ := h
    obtain ⟨hr, -⟩ := List.idxOf?_eq_some_iff.mp hrank
    obtain ⟨hs, -⟩ := List.idxOf?_eq_some_iff.mp hsuit
    have hrank13 : rank < 13 := hr
    have hsuit4 : suit < 4 := hs
    refine ⟨?_, ?_⟩
    · unfold makeCard maxSuits
      omega
    · simp only [List.length_cons]
      omega
  next => cases h

theorem readCards_lt (maxCards : Nat) (text : List Char) :
    (readCards maxCards text).1.length ≤ maxCards ∧ (∀ card ∈ (readCards maxCards text).1, card < 52) ∧
      (readCards maxCards text).2.length ≤ text.length := by
  induction maxCards generalizing text with
  | zero => exact ⟨le_rfl, fun card h => absurd h List.not_mem_nil, le_rfl⟩
  | succ maxCards ih =>
    rw [readCards]
    split
    · exact ⟨Nat.zero_le _, fun card h => absurd h List.not_mem_nil, le_rfl⟩
    next card rest hcard =>
      obtain ⟨hlt, hrest⟩ := readCard_lt hcard
      obtain ⟨hlen, hall, hlast⟩ := ih rest
      refine ⟨?_, fun c hc => ?_, hlast.trans hrest⟩
      · rw [List.length_cons]
        omega
      · rcases List.mem_cons.mp hc with rfl | hc
        · exact hlt
        · exact hall c hc

theorem skipSeparator_length (i : Nat) (separator : Char) (text : List Char) :
    (skipSeparator i separator text).length ≤ text.length := by
  unfold skipSeparator
  split
  · rw [List.length_tail]
    omega
  · exact le_rfl

theorem storeCards_of_lt {start k : Nat} {held : List Nat} {cards : Nat → Nat} (hlo : start ≤ k)
    (hhi : k < start + held.length) : storeCards start held cards k ∈ held := by
  unfold storeCards
  rw [if_pos hlo, List.getD_eq_getElem _ _ (by omega)]
  exact List.getElem_mem _

theorem storeCards_of_not {start k : Nat} {held : List Nat} {cards : Nat → Nat}
    (h : k < start ∨ start + held.length ≤ k) : storeCards start held cards k = cards k := by
  unfold storeCards
  by_cases hlo : start ≤ k
  · rw [if_pos hlo]
    exact List.getD_eq_default _ _ (by omega)
  · rw [if_neg hlo]

/-- A player's cards after a text was read: the ones held before, or cards of the deck in place of all of them. -/
def HoleCardsRead (g : Game) (before after : Nat → Nat) : Prop :=
  after = before ∨ (∀ i < g.numHoleCards, after i < 52) ∧ ∀ i, g.numHoleCards ≤ i → after i = before i

theorem readHoleCardsLoop_reads {players : List Nat} {cards cards' : Nat → Nat → Nat}
    (h : readHoleCardsLoop g players text cards = some (cards', rest)) :
    rest.length ≤ text.length ∧ (∀ p ∉ players, cards' p = cards p) ∧ ∀ p, HoleCardsRead g (cards p) (cards' p) := by
  induction players generalizing text cards with
  | nil =>
    cases h
    exact ⟨le_rfl, fun p _ => rfl, fun p => .inl rfl⟩
  | cons q players ih =>
    have hskip := skipSeparator_length q '|' text
    obtain ⟨-, hall, hlast⟩ := readCards_lt g.numHoleCards (skipSeparator q '|' text)
    rw [readHoleCardsLoop] at h
    simp only at h
    split at h
    · obtain ⟨hrest, hothers, hread⟩ := ih h
      exact ⟨hrest.trans hskip, fun p hp => hothers p fun hmem => hp (List.mem_cons_of_mem q hmem), hread⟩
    · split at h
      · cases h
      next hheld =>
        rw [not_not] at hheld
        obtain ⟨hrest, hothers, hread⟩ := ih h
        refine ⟨hrest.trans (hlast.trans hskip), fun p hp => ?_, fun p => ?_⟩
        · rw [List.mem_cons, not_or] at hp
          obtain ⟨hpq, hp⟩ := hp
          rw [hothers p hp, Function.update_of_ne hpq]
        · by_cases hpq : p = q
          · subst hpq
            have hstored := hread p
            rw [Function.update_self] at hstored
            have hnew : HoleCardsRead g (cards p)
                (storeCards 0 (readCards g.numHoleCards (skipSeparator p '|' text)).1 (cards p)) := by
              refine .inr ⟨fun i hi => ?_, fun i hi => ?_⟩
              · exact hall _ (storeCards_of_lt (Nat.zero_le i) (by omega))
              · exact storeCards_of_not (by omega)
            rcases hstored with heq | ⟨hlt, hkept⟩
            · rw [heq]
              exact hnew
            · refine .inr ⟨hlt, fun i hi => ?_⟩
              rw [hkept i hi, storeCards_of_not (by omega)]
          · have hstored := hread p
            rw [Function.update_of_ne hpq] at hstored
            exact hstored

/-- A checked reading goes wrong nowhere: it reads what the plain one reads, and what is read has a property. -/
def ReadsAs {α : Type} (checked : Except ReadFailure α) (plain : Option α) (P : α → Prop) : Prop :=
  checked = orRefused plain ∧ ∀ x, plain = some x → P x

theorem ReadsAs.plain {α : Type} (o : Option α) : ReadsAs (orRefused o) o fun x => o = some x :=
  ⟨rfl, fun _ h => h⟩

theorem ReadsAs.pure {α : Type} {P : α → Prop} {x : α} (h : P x) :
    ReadsAs (pure x : Except ReadFailure α) (pure x : Option α) P := by
  refine ⟨rfl, fun y hy => ?_⟩
  cases hy
  exact h

theorem ReadsAs.bind {α β : Type} {checked : Except ReadFailure α} {plain : Option α} {P : α → Prop}
    {next : α → Except ReadFailure β} {next' : α → Option β} {Q : β → Prop} (h : ReadsAs checked plain P)
    (hnext : ∀ x, P x → ReadsAs (next x) (next' x) Q) : ReadsAs (checked >>= next) (plain >>= next') Q := by
  obtain ⟨heq, hread⟩ := h
  subst heq
  cases plain with
  | none => exact ⟨rfl, nofun⟩
  | some x => exact hnext x (hread x rfl)

/-- Reading the board of `m` rounds from round `k` on stays inside the array and stores cards of the deck. -/
theorem readBoardCardsChecked_reads {k m : Nat} (hboard : boardBefore g (k + m) ≤ maxBoardCards)
    (text : List Char) (cards : Nat → Nat) :
    ReadsAs (readBoardCardsChecked g (List.range' k m) text cards) (readBoardCardsLoop g (List.range' k m) text cards)
      fun r => r.2.length ≤ text.length ∧
        (∀ i, boardBefore g k ≤ i → i < boardBefore g (k + m) → r.1 i < 52) ∧
        ∀ i, i < boardBefore g k ∨ boardBefore g (k + m) ≤ i → r.1 i = cards i := by
  induction m generalizing k text cards with
  | zero =>
    refine ⟨rfl, fun r h => ?_⟩
    cases h
    exact ⟨le_rfl, fun i hlo hhi => absurd hhi (by rw [Nat.add_zero]; omega), fun i _ => rfl⟩
  | succ m ih =>
    have hsucc := boardBefore_succ g k
    have hmono := boardBefore_mono g (show k + 1 ≤ k + (m + 1) by omega)
    have hshift : k + (m + 1) = k + 1 + m := by omega
    rw [hshift] at hboard hmono ⊢
    have hstart : bcStart g k = boardBefore g k :=
      Nat.mod_eq_of_lt (by unfold boardBefore maxBoardCards at *; omega)
    have hskip := skipSeparator_length k '/' text
    obtain ⟨hlen, hall, hlast⟩ := readCards_lt (g.numBoardCards k) (skipSeparator k '/' text)
    rw [List.range'_succ, readBoardCardsChecked, readBoardCardsLoop]
    simp only
    rw [if_neg (by unfold maxBoardCards at *; omega)]
    by_cases hheld : (readCards (g.numBoardCards k) (skipSeparator k '/' text)).1.length = g.numBoardCards k
    · rw [if_neg (not_not.mpr hheld), if_neg (not_not.mpr hheld)]
      obtain ⟨heq, hread⟩ := ih hboard (readCards (g.numBoardCards k) (skipSeparator k '/' text)).2
        (storeCards (bcStart g k) (readCards (g.numBoardCards k) (skipSeparator k '/' text)).1 cards)
      refine ⟨heq, fun r h => ?_⟩
      obtain ⟨hrest, hin, hout⟩ := hread r h
      refine ⟨hrest.trans (hlast.trans hskip), fun i hlo hhi => ?_, fun i hi => ?_⟩
      · by_cases hi : i < boardBefore g (k + 1)
        · rw [hout i (.inl hi)]
          exact hall _ (storeCards_of_lt (by omega) (by omega))
        · exact hin i (by omega) hhi
      · rw [hout i (by omega), storeCards_of_not (by omega)]
    · rw [if_pos hheld, if_pos hheld]
      refine ⟨rfl, fun r h => ?_⟩
      cases h

theorem scanUnsigned_length {width n : Nat} (h : scanUnsigned width text = some (n, rest)) :
    rest.length ≤ text.length := by
  obtain ⟨⟨negative, m, rest'⟩, hscan, hrest⟩ := Option.map_eq_some_iff.mp h
  obtain ⟨-, rfl⟩ := Prod.mk.inj hrest
  exact scanNumber_length hscan

theorem scanLiteral_length {literal : List Char} (h : scanLiteral literal text = some rest) :
    rest.length ≤ text.length := by
  unfold scanLiteral at h
  rw [Option.ite_none_right_eq_some] at h
  obtain ⟨-, h⟩ := h
  rw [← Option.some.inj h, List.length_drop]
  omega

/-- What a text can make of a state. -/
structure StateRead (g : Game) (prior t : State) : Prop where
  betting : ∃ trace s, RunOver g prior trace s ∧ SameButCards s t
  holeCards : ∀ p, HoleCardsRead g (prior.holeCards p) (t.holeCards p)
  others : ∀ p, g.numPlayers ≤ p → t.holeCards p = prior.holeCards p
  boardCards : ∀ i < boardBefore g (t.round + 1), t.boardCards i < 52
  boardRest : ∀ i, boardBefore g (t.round + 1) ≤ i → t.boardCards i = prior.boardCards i

theorem readBettingChecked_readsAs (wf : g.WellFormed) (safe : g.TextSafe) (run : RunOver g prior trace s) :
    ReadsAs (readBettingChecked g text s) (readBetting g text s)
      fun r => r.2.length ≤ text.length ∧ ∃ trace, RunOver g prior trace r.1 := by
  have hread := readBettingChecked_safe wf safe text run
  have hplain := readBettingLoop_eq g (Nat.lt_succ_self text.length) s
  unfold readBetting
  rw [hplain]
  cases hchecked : readBettingChecked g text s with
  | error e =>
    cases e with
    | refused => exact ⟨rfl, nofun⟩
    | aborted => exact absurd hchecked hread.goesOn
  | ok r =>
    refine ⟨rfl, fun x hx => ?_⟩
    cases hx
    exact hread.reached _ _ hchecked

theorem readStateCommonChecked_reads (wf : g.WellFormed) (safe : g.TextSafe) (text : List Char) (prior : State) :
    ReadsAs (readStateCommonChecked g text prior) (readStateCommon g text prior)
      fun r => r.2.length ≤ text.length ∧ StateRead g prior r.1 := by
  unfold readStateCommonChecked readStateCommon
  refine .bind (.plain _) fun afterColon hcolon => ?_
  refine .bind (.plain _) fun ⟨handId, afterId⟩ hid => ?_
  refine .bind (.plain _) fun _ _ => ?_
  have hstart : RunOver g prior [] (initState g (UInt32.ofNat handId) prior) := .start ⟨_, rfl⟩
  refine .bind (readBettingChecked_readsAs wf safe hstart) fun ⟨s, afterBetting⟩ ⟨hbetting, trace, run⟩ => ?_
  refine .bind (.plain _) fun ⟨t, afterHole⟩ hhole => ?_
  obtain ⟨⟨hole, afterHole'⟩, hloop, heq⟩ := Option.map_eq_some_iff.mp hhole
  cases heq
  obtain ⟨hholeRest, hothers, hheld⟩ := readHoleCardsLoop_reads hloop
  obtain ⟨hholeCards, hboardCards⟩ := run.cards
  have hround : 0 + (s.round + 1) ≤ g.numRounds := by
    rw [Nat.zero_add]
    exact (safeBetting_of_run wf safe run).turn.round_lt
  have hboard := readBoardCardsChecked_reads ((boardBefore_mono g hround).trans safe.board) afterHole s.boardCards
  rw [← List.range_eq_range'] at hboard
  simp only [Nat.zero_add] at hboard
  have hscanned := (scanUnsigned_length hid).trans (scanLiteral_length hcolon)
  have htail : afterId.tail.length ≤ afterId.length := by
    rw [List.length_tail]
    omega
  simp only [readBoardCards, Option.map_eq_bind]
  refine .bind hboard fun r hr => .pure ?_
  obtain ⟨cards, afterBoard⟩ := r
  obtain ⟨hrest, hlow, hhigh⟩ := hr
  constructor
  · exact hrest.trans (hholeRest.trans (hbetting.trans (htail.trans hscanned)))
  · refine ⟨⟨trace, s, run, rfl⟩, fun p => ?_, fun p hp => ?_, fun i hi => ?_, fun i hi => ?_⟩
    · rw [← hholeCards]
      exact hheld p
    · rw [← hholeCards]
      exact hothers p fun hmem => absurd (List.mem_range.mp hmem) (by omega)
    · exact hlow i (Nat.zero_le _) hi
    · rw [← hboardCards]
      exact hhigh i (.inr hi)

/-- What an accepted text makes of a state of the match. -/
structure MatchStateRead (g : Game) (text : List Char) (prior : MatchState) (consumed : Nat) (m : MatchState) :
    Prop where
  consumed_le : consumed ≤ text.length
  viewingPlayer : m.viewingPlayer < g.numPlayers
  state : StateRead g prior.state m.state

/-- Whatever text the server sends, no assertion fails and no array is left. It is refused, or what it makes is a
state that accepted actions reach from the start of a hand, with cards of the deck dealt to it. -/
theorem readMatchState_safe {lines : List GameLine} (hread : readGame lines = some g) (safe : g.TextSafe)
    (text : List Char) (prior : MatchState) :
    readMatchStateChecked g text prior = orRefused (readMatchState g text prior) ∧
      ∀ consumed m, readMatchState g text prior = some (consumed, m) → MatchStateRead g text prior consumed m := by
  have wf := readGame_wellFormed hread
  have hreads : ReadsAs (readMatchStateChecked g text prior) (readMatchState g text prior)
      fun r => MatchStateRead g text prior r.1 r.2 := by
    unfold readMatchStateChecked readMatchState
    refine .bind (.plain _) fun body htag => ?_
    refine .bind (.plain _) fun ⟨viewingPlayer, afterPlayer⟩ hscan => ?_
    refine .bind (.plain _) fun _ hguard => ?_
    refine .bind (readStateCommonChecked_reads wf safe afterPlayer prior.state) fun ⟨t, rest⟩ ⟨hrest, hstate⟩ => ?_
    exact .pure ⟨Nat.sub_le _ _, by simpa using hguard, hstate⟩
  exact ⟨hreads.1, fun consumed m h => hreads.2 _ h⟩

theorem twoRoundGame_textSafe : twoRoundGame.TextSafe := by
  refine ⟨⟨0, by decide, by decide⟩, fun _ => ?_, by decide⟩
  change ∀ p < 2, _
  decide

theorem readMatchState_safe_flop :
    ∃ consumed m, readMatchState twoRoundGame "MATCHSTATE:1:7:cc/:|2c3d/QhJhTh".toList ⟨blankState, 0⟩ =
        some (consumed, m) ∧
      MatchStateRead twoRoundGame "MATCHSTATE:1:7:cc/:|2c3d/QhJhTh".toList ⟨blankState, 0⟩ consumed m := by
  have hread : readGame twoRoundFile = some twoRoundGame := (Option.some_get _).symm
  obtain ⟨⟨consumed, m⟩, haccepted⟩ := Option.isSome_iff_exists.mp (show
    (readMatchState twoRoundGame "MATCHSTATE:1:7:cc/:|2c3d/QhJhTh".toList ⟨blankState, 0⟩).isSome by decide +kernel)
  obtain ⟨-, hsafe⟩ := readMatchState_safe hread twoRoundGame_textSafe
    "MATCHSTATE:1:7:cc/:|2c3d/QhJhTh".toList ⟨blankState, 0⟩
  exact ⟨consumed, m, haccepted, hsafe consumed m haccepted⟩

end MasterAI
