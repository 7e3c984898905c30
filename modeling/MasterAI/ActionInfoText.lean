import MasterAI.ActionInfo
import MasterAI.BettingReplay

namespace MasterAI

theorem printInt_chars {x : Int} : ∀ c ∈ printInt x, c.isDigit = true ∨ c = '-' := by
  intro c hc
  unfold printInt at hc
  split at hc
  · rcases List.mem_cons.mp hc with rfl | hc
    · exact Or.inr rfl
    · exact Or.inl (printNat_digits c hc)
  · exact Or.inl (printNat_digits c hc)

theorem not_mem_printInt {x : Int} {c : Char} (hdigit : c.isDigit = false) (hminus : c ≠ '-') :
    c ∉ printInt x := by
  intro hc
  rcases printInt_chars c hc with h | h
  · rw [hdigit] at h
    cases h
  · exact hminus h

theorem atoi_printInt {x : Int} (hx : FitsInt32 x) {rest : List Char} (hr : StopsNumber rest) :
    atoi (printInt x ++ rest) = x := by
  unfold atoi
  rw [scanInt32_printInt hx hr]
  rfl

/-- A field of two digits that `atoi` reads back. -/
def TwoDigits (x : Int) (text : List Char) : Prop :=
  ∃ a b, text = [a, b] ∧ ∀ rest, StopsNumber rest → atoi (a :: b :: rest) = x

theorem printInt02_digits : ∀ n : Nat, n < 100 → (printInt02 n).length = 2 ∧
    (printInt02 n).all Char.isDigit = true ∧ Nat.ofDigitChars 10 (printInt02 n) 0 = n := by
  decide +kernel

/-- A card, or the mark of a card that is not dealt, fills two digits. -/
theorem printInt02_two {n : Nat} (hn : n < 100) : TwoDigits n (printInt02 n) := by
  obtain ⟨hlength, hall, hvalue⟩ := printInt02_digits n hn
  have hdigits : ∀ c ∈ printInt02 n, c.isDigit = true := List.all_eq_true.mp hall
  obtain ⟨a, b, hab⟩ := List.length_eq_two.mp hlength
  rw [hab] at hdigits hvalue
  refine ⟨a, b, hab, fun rest hr => ?_⟩
  have hfits : FitsInt32 (Nat.ofDigitChars 10 [a, b] 0) := by
    rw [hvalue]
    exact ⟨by omega, by unfold int32Max; omega⟩
  have hscan : scanInt32 (a :: b :: rest) = some ((n : Int), rest) := by
    rw [← hvalue]
    exact scanInt32_digits hdigits (by simp) hfits hr
  unfold atoi
  rw [hscan]
  rfl

/-- Seven cards of two digits and three numbers of 32 bits. -/
structure ActionInfo.Printable (info : ActionInfo) : Prop where
  board : ∃ a b c d e : Nat, info.boardCards = [(a : Int), b, c, d, e] ∧
    a < 100 ∧ b < 100 ∧ c < 100 ∧ d < 100 ∧ e < 100
  hole : ∃ a b : Nat, info.hcpCards = [(a : Int), b] ∧ a < 100 ∧ b < 100
  st : FitsInt32 info.st
  betTo : FitsInt32 info.betTo
  numStreetBet : FitsInt32 info.numStreetBet

/-- The text after the cards, with a betting sequence of its own. -/
def ActionInfo.numbersText (info : ActionInfo) (seq : List Char) : List Char :=
  printInt info.st ++ ([',', ' '] ++ (['b', 'e', 't', '_', 't', 'o', ':'] ++ (printInt info.betTo ++
    ([',', ' '] ++ (['n', 'u', 'm', '_', 'b', 'e', 't', ':'] ++ (printInt info.numStreetBet ++
      ([',', ' '] ++ (['s', 'e', 'q', ':'] ++ seq))))))))

/-- The text with cards that are already printed. -/
def cardsLine (b0 b1 b2 b3 b4 h0 h1 numbers : List Char) : List Char :=
  ['b', 'c', ':'] ++ (b0 ++ (',' :: (b1 ++ (',' :: (b2 ++ (',' :: (b3 ++ (',' :: (b4 ++
    ([' ', ' '] ++ (['h', 'c', ':'] ++ (h0 ++ (',' :: (h1 ++ ([',', ' '] ++ (['s', 't', ':'] ++ numbers))))))))))))))))

theorem stopsNumber_cons {c : Char} (hc : c.isDigit = false) (rest : List Char) : StopsNumber (c :: rest) := by
  intro d hd
  cases hd
  exact hc

/-- The label is found behind a printed number. -/
theorem strstr_printInt {c : Char} (hdigit : c.isDigit = false) (hminus : c ≠ '-') (hcomma : c ≠ ',')
    (hblank : c ≠ ' ') (needle rest : List Char) (x : Int) :
    strstr (c :: needle) (printInt x ++ ([',', ' '] ++ (c :: needle ++ rest))) = some (c :: needle ++ rest) := by
  have hskip : c ∉ printInt x ++ [',', ' '] := by
    simp [not_mem_printInt hdigit hminus, hcomma, hblank]
  rw [← List.append_assoc]
  exact strstr_append hskip

/-- The result of `FromString` where it finds all its labels. -/
theorem fromText_found {text p q r u v w : List Char} (hb : strstr ['b', 'c', ':'] text = some p)
    (hp : 20 ≤ p.length) (hh : strstr ['h', 'c', ':'] (p.drop 18) = some q) (hq : 10 ≤ q.length)
    (hs : strstr ['s', 't', ':'] (q.drop 9) = some r)
    (ht : strstr ['b', 'e', 't', '_', 't', 'o', ':'] (r.drop 3) = some u)
    (hn : strstr ['n', 'u', 'm', '_', 'b', 'e', 't', ':'] (u.drop 7) = some v)
    (he : strstr ['s', 'e', 'q', ':'] (v.drop 8) = some w) :
    ActionInfo.fromText text =
      .ok
        { boardCards := atoiFields 5 (p.drop 3), hcpCards := atoiFields 2 (q.drop 3), st := atoi (r.drop 3),
          actionSeq := w.drop 4, betTo := atoi (u.drop 7), numStreetBet := atoi (v.drop 8) } := by
  have hp' : (some p).filter (fun p => decide (20 ≤ p.length)) = some p := by
    simp [hp]
  have hq' : (some q).filter (fun q => decide (10 ≤ q.length)) = some q := by
    simp [hq]
  have hbind : ∀ (x : List Char) (f : List Char → Except Int ActionInfo), (Except.ok x >>= f) = f x :=
    fun _ _ => rfl
  unfold ActionInfo.fromText
  simp only [hb, hp', hh, hq', hs, ht, hn, he, hbind, Option.elim_some]
  rfl

/-- `FromString` reads back cards of two digits and the numbers behind them. -/
theorem fromText_cardsLine {info : ActionInfo} (h : info.Printable) (seq : List Char)
    {b0 b1 b2 b3 b4 h0 h1 : List Char} {x0 x1 x2 x3 x4 y0 y1 : Int} (hb0 : TwoDigits x0 b0)
    (hb1 : TwoDigits x1 b1) (hb2 : TwoDigits x2 b2) (hb3 : TwoDigits x3 b3) (hb4 : TwoDigits x4 b4)
    (hh0 : TwoDigits y0 h0) (hh1 : TwoDigits y1 h1) :
    ActionInfo.fromText (cardsLine b0 b1 b2 b3 b4 h0 h1 (info.numbersText seq)) =
      .ok { info with boardCards := [x0, x1, x2, x3, x4], hcpCards := [y0, y1], actionSeq := seq } := by
  obtain ⟨a0, c0, rfl, hb0⟩ := hb0
  obtain ⟨a1, c1, rfl, hb1⟩ := hb1
  obtain ⟨a2, c2, rfl, hb2⟩ := hb2
  obtain ⟨a3, c3, rfl, hb3⟩ := hb3
  obtain ⟨a4, c4, rfl, hb4⟩ := hb4
  obtain ⟨d0, e0, rfl, hh0⟩ := hh0
  obtain ⟨d1, e1, rfl, hh1⟩ := hh1
  have hcomma : ∀ rest, StopsNumber (',' :: rest) := stopsNumber_cons rfl
  have hblank : ∀ rest, StopsNumber (' ' :: rest) := stopsNumber_cons rfl
  have hst := atoi_printInt h.st (hcomma (' ' :: (['b', 'e', 't', '_', 't', 'o', ':'] ++ (printInt info.betTo ++
    ([',', ' '] ++ (['n', 'u', 'm', '_', 'b', 'e', 't', ':'] ++ (printInt info.numStreetBet ++
      ([',', ' '] ++ (['s', 'e', 'q', ':'] ++ seq)))))))))
  have hbetTo := atoi_printInt h.betTo (hcomma (' ' :: (['n', 'u', 'm', '_', 'b', 'e', 't', ':'] ++
    (printInt info.numStreetBet ++ ([',', ' '] ++ (['s', 'e', 'q', ':'] ++ seq))))))
  have hnum := atoi_printInt h.numStreetBet (hcomma (' ' :: (['s', 'e', 'q', ':'] ++ seq)))
  have fbet := strstr_printInt (c := 'b') rfl (by decide) (by decide) (by decide) ['e', 't', '_', 't', 'o', ':']
    (printInt info.betTo ++ ([',', ' '] ++ (['n', 'u', 'm', '_', 'b', 'e', 't', ':'] ++
      (printInt info.numStreetBet ++ ([',', ' '] ++ (['s', 'e', 'q', ':'] ++ seq)))))) info.st
  have fnum := strstr_printInt (c := 'n') rfl (by decide) (by decide) (by decide)
    ['u', 'm', '_', 'b', 'e', 't', ':']
    (printInt info.numStreetBet ++ ([',', ' '] ++ (['s', 'e', 'q', ':'] ++ seq))) info.betTo
  have fseq := strstr_printInt (c := 's') rfl (by decide) (by decide) (by decide) ['e', 'q', ':'] seq
    info.numStreetBet
  simp only [List.cons_append, List.nil_append] at hst hbetTo hnum fbet fnum fseq
  refine (fromText_found (p := cardsLine [a0, c0] [a1, c1] [a2, c2] [a3, c3] [a4, c4] [d0, e0] [d1, e1]
    (info.numbersText seq)) (strstr_append (s := []) (by simp)) (by simp [cardsLine])
    (strstr_append (s := [' ']) (by decide)) (by simp)
    (strstr_append (s := [' ']) (by decide)) fbet fnum fseq).trans ?_
  have hboard : atoiFields 5 ((cardsLine [a0, c0] [a1, c1] [a2, c2] [a3, c3] [a4, c4] [d0, e0] [d1, e1]
      (info.numbersText seq)).drop 3) = [x0, x1, x2, x3, x4] := by
    simp [atoiFields, List.range_succ, cardsLine, hb0, hb1, hb2, hb3, hb4, hcomma, hblank]
  rw [hboard]
  simp [atoiFields, List.range_succ, hh0, hh1, hcomma, hbetTo, hnum]
  exact hst

theorem printInt_length_le {x : Int} (hx : FitsInt32 x) : (printInt x).length ≤ 11 := by
  unfold FitsInt32 int32Max at hx
  have hdigits : (printNat x.natAbs).length ≤ 10 := by
    rw [printNat_length_le (by omega)]
    omega
  unfold printInt
  split
  · rw [List.length_cons]
    omega
  · omega

/-- The characters that the buffer leaves for the betting sequence. -/
def ActionInfo.seqRoom (info : ActionInfo) : Nat :=
  69 - ((printInt info.st).length + (printInt info.betTo).length + (printInt info.numStreetBet).length)

/-- `FromString` reads back what `ToString` printed, with the betting sequence cut to its room. -/
theorem fromText_toText {info : ActionInfo} (h : info.Printable) :
    ActionInfo.fromText info.toText = .ok { info with actionSeq := info.actionSeq.take info.seqRoom } := by
  obtain ⟨a, b, c, d, e, hboard, ha, hb, hc, hd, he⟩ := h.board
  obtain ⟨x, y, hhole, hx, hy⟩ := h.hole
  have hline : info.toText = cardsLine (printInt02 a) (printInt02 b) (printInt02 c) (printInt02 d) (printInt02 e)
      (printInt02 x) (printInt02 y) (info.numbersText (info.actionSeq.take info.seqRoom)) := by
    have hst := printInt_length_le h.st
    have hbet := printInt_length_le h.betTo
    have hnum := printInt_length_le h.numStreetBet
    have hlen : ∀ n : Nat, n < 100 → (printInt02 n).length = 2 := fun n hn => (printInt02_digits n hn).1
    unfold ActionInfo.toText
    rw [hboard, hhole, List.take_append, List.take_of_length_le]
    · simp [cardsLine, ActionInfo.numbersText, ActionInfo.seqRoom, hlen, ha, hb, hc, hd, he, hx, hy]
      omega
    · simp [hlen, ha, hb, hc, hd, he, hx, hy]
      omega
  rw [hline, fromText_cardsLine h _ (printInt02_two ha) (printInt02_two hb) (printInt02_two hc)
    (printInt02_two hd) (printInt02_two he) (printInt02_two hx) (printInt02_two hy), ← hboard, ← hhole]

/-- The largest raise of the hand, and at least two chips. -/
def State.largestRaise (s : State) : Int :=
  ((s.history.filter fun e => e.1.type = .raise).map fun e => e.1.size).foldl max 2

/-- The number of characters that stand for an action. -/
def actionLength (a : Action) : Nat := if a.type = .raise then 1 + (printInt a.size).length else 1

/-- The number of characters that the bets of the hand take, with a blank before every later round that
has bets. -/
def State.historyLength (s : State) : Nat :=
  ((List.range (s.round + 1)).map fun r =>
    (if s.numActions r > 0 ∧ r > 0 then 1 else 0) + ((s.action r).map fun e => actionLength e.1).sum).sum

/-- The cards that the hand has shown to the viewing player lie in the deck. -/
structure MatchState.ValidCards (m : MatchState) : Prop where
  board : ∀ i < streetBoardCnt.getD m.state.round 0, m.state.boardCards i < 52
  hole : ∀ i < 2, m.state.holeCards m.viewingPlayer i < 52

section

variable {g : Game} {m : MatchState}

theorem getBetTo_eq (m : MatchState) : getBetTo m = m.state.largestRaise := by
  have hfold : ∀ (l : List (Action × Nat)) (least : Int),
      l.foldl (fun betTo e => if e.1.type = .raise ∧ e.1.size > betTo then e.1.size else betTo) least =
        ((l.filter fun e => e.1.type = .raise).map fun e => e.1.size).foldl max least := by
    intro l
    induction l with
    | nil => intro least; rfl
    | cons e l ih =>
      intro least
      by_cases hraise : e.1.type = .raise
      · simp only [List.foldl_cons, ih, hraise, true_and, List.filter_cons, decide_true, if_true, List.map_cons]
        congr 1
        split
        · omega
        · omega
      · simp [ih, hraise]
  exact hfold _ 2

theorem largestRaise_fits {s : State} (h : ∀ e ∈ s.history, e.1.type = .raise → FitsInt32 e.1.size) :
    FitsInt32 s.largestRaise := by
  have hfold : ∀ (l : List Int) (least : Int), FitsInt32 least → (∀ x ∈ l, FitsInt32 x) →
      FitsInt32 (l.foldl max least) := by
    intro l
    induction l with
    | nil => exact fun _ hleast _ => hleast
    | cons x l ih =>
      intro least hleast hall
      have hx := hall x (by simp)
      refine ih _ ?_ fun y hy => hall y (by simp [hy])
      unfold FitsInt32 at *
      omega
  refine hfold _ 2 ⟨by omega, by unfold int32Max; omega⟩ ?_
  intro x hx
  obtain ⟨e, he, rfl⟩ := List.mem_map.mp hx
  obtain ⟨hmem, hraise⟩ := List.mem_filter.mp he
  exact h e hmem (of_decide_eq_true hraise)

theorem getActionSeq_length (h : ∀ e ∈ m.state.history, e.1.type ≠ .invalid) :
    (getActionSeq m).length = m.state.historyLength := by
  have haction : ∀ l : List (Action × Nat), (∀ e ∈ l, e.1.type ≠ .invalid) →
      (l.flatMap fun e => getSingleActionStr e.1).length = (l.map fun e => actionLength e.1).sum := by
    intro l hl
    rw [List.length_flatMap]
    congr 1
    refine List.map_congr_left fun e he => ?_
    have hvalid := hl e he
    obtain ⟨⟨type, size⟩, p⟩ := e
    cases type with
    | fold => rfl
    | call => rfl
    | raise => simp [getSingleActionStr, actionLength]; omega
    | invalid => exact absurd rfl hvalid
  unfold getActionSeq State.historyLength
  rw [List.length_flatMap]
  congr 1
  refine List.map_congr_left fun r hr => ?_
  have hround := haction (m.state.action r) fun e he => h e (List.mem_flatMap.mpr ⟨r, hr, he⟩)
  rw [List.length_append, hround]
  congr 1
  split
  · rfl
  · rfl

/-- What the hands of a no-limit game give `ToString` to print. -/
theorem getActionInfo_printable (wf : g.WellFormed) (hround : m.state.round < g.numRounds)
    (hraises : ∀ e ∈ m.state.history, e.1.type = .raise → FitsInt32 e.1.size) (hcards : m.ValidCards) :
    (getActionInfo m).Printable := by
  have hround4 : m.state.round < 4 := by
    have := wf.rounds_le
    unfold maxRounds at this
    omega
  let dealt := fun i => if i < streetBoardCnt.getD m.state.round 0 then m.state.boardCards i else 99
  have hdealt : ∀ i, dealt i < 100 := by
    intro i
    by_cases hi : i < streetBoardCnt.getD m.state.round 0
    · have := hcards.board i hi
      simp only [dealt, if_pos hi]
      omega
    · simp only [dealt, if_neg hi]
      omega
  have hcast : ∀ i, (if i < streetBoardCnt.getD m.state.round 0 then (m.state.boardCards i : Int) else 99) =
      (dealt i : Int) := by
    intro i
    by_cases hi : i < streetBoardCnt.getD m.state.round 0
    · simp only [dealt, if_pos hi]
    · simp only [dealt, if_neg hi]
      rfl
  refine ⟨⟨dealt 0, dealt 1, dealt 2, dealt 3, dealt 4, ?_, hdealt 0, hdealt 1, hdealt 2, hdealt 3, hdealt 4⟩,
    ⟨m.state.holeCards m.viewingPlayer 0, m.state.holeCards m.viewingPlayer 1, ?_, ?_, ?_⟩, ?_, ?_, ?_⟩
  · simp only [getActionInfo, hcast]
    rfl
  · rfl
  · have := hcards.hole 0 (by omega)
    omega
  · have := hcards.hole 1 (by omega)
    omega
  · simp only [getActionInfo, FitsInt32, int32Max]
    omega
  · simp only [getActionInfo, getBetTo_eq]
    exact largestRaise_fits hraises
  · simp [getActionInfo, FitsInt32, int32Max]

theorem getActionInfo_seqRoom (hround : m.state.round < 10) :
    (getActionInfo m).seqRoom = 66 - (printInt m.state.largestRaise).length := by
  have hst : (printInt (m.state.round : Int)).length = 1 := by
    have hdigit : ∀ n : Nat, n < 10 → (printInt (n : Int)).length = 1 := by
      decide +kernel
    exact hdigit _ hround
  have hnum : (printInt (-1)).length = 2 := by
    decide
  simp only [ActionInfo.seqRoom, getActionInfo, getBetTo_eq, hst, hnum]
  omega

theorem actionSeq_kept_iff (info : ActionInfo) (n : Nat) :
    { info with actionSeq := info.actionSeq.take n } = info ↔ info.actionSeq.length ≤ n := by
  rw [← List.take_eq_self_iff]
  constructor
  · intro h
    exact congrArg ActionInfo.actionSeq h
  · intro h
    rw [h]

/-- The situation of a no-limit hand survives its text just as far as the bets fit the buffer behind the
cards and the numbers. -/
theorem actionInfo_reread_iff {lines : List GameLine} (hread : readGame lines = some g)
    (hbet : g.bettingType = .noLimitBetting) {trace : List (Transition State Action)}
    (run : BettingRun g trace m.state) (hcards : m.ValidCards) :
    ActionInfo.fromText (getActionInfo m).toText = .ok (getActionInfo m) ↔
      (printInt m.state.largestRaise).length + m.state.historyLength ≤ 66 := by
  have wf := readGame_wellFormed hread
  obtain ⟨start, inv⟩ : ∃ start, ReplayInv g start m.state := by
    refine run.always (P := fun s => ∃ start, ReplayInv g start s) ?_ ?_
    · rintro s ⟨handId, prior, rfl⟩
      exact ⟨_, ReplayInv.init wf handId prior prior⟩
    · rintro s a t hmove ⟨start, inv⟩
      have bare : LimitRaiseBare g ⟨s, a, t⟩ := by
        intro hlimit
        rw [hbet] at hlimit
        cases hlimit
      exact ⟨start, ReplayInv.step (m := ⟨s, a, t⟩) wf hmove bare inv⟩
  have hround := inv.rounds.round_lt
  have hrounds := wf.rounds_le
  unfold maxRounds at hrounds
  have hlength := getActionSeq_length fun e he => (inv.readable e he).1
  have hprint := getActionInfo_printable wf hround (fun e he => (inv.readable e he).2 hbet) hcards
  have hdigits := printInt_length_le hprint.betTo
  have hbetTo : (getActionInfo m).betTo = m.state.largestRaise := getBetTo_eq m
  have hseq : (getActionInfo m).actionSeq.length = m.state.historyLength := hlength
  rw [hbetTo] at hdigits
  rw [fromText_toText hprint, Except.ok.injEq, actionSeq_kept_iff, getActionInfo_seqRoom (by omega), hseq]
  omega

end

def duelFile : List GameLine :=
  [.nolimit, .numPlayers [2], .numRounds [4], .stack [20000, 20000], .blind [100, 50],
    .firstPlayer [2, 1, 1, 1], .numSuits [4], .numRanks [13], .numHoleCards [2],
    .numBoardCards [0, 3, 1, 1]]

def duelGame : Game := (readGame duelFile).get (by decide)

/-- A hand in which every raise adds a big blind. -/
def raisedState (raises : Nat) : MatchState where
  state := (playFrom duelGame ((List.range raises).map fun i => ⟨.raise, 100 * i + 200⟩)).2
  viewingPlayer := 1

theorem raisedState_run (raises : Nat) :
    ∃ trace, BettingRun duelGame trace (raisedState raises).state :=
  ⟨_, (playFrom_run duelGame _).weaken fun _ _ _ => StrictMove.move⟩

theorem actionInfo_reread_fiveRaises :
    (raisedState 5).state.historyLength = 20 ∧
      ActionInfo.fromText (getActionInfo (raisedState 5)).toText = .ok (getActionInfo (raisedState 5)) := by
  obtain ⟨trace, run⟩ := raisedState_run 5
  have hcards : (raisedState 5).ValidCards :=
    ⟨by decide +kernel, by decide +kernel⟩
  refine ⟨by decide +kernel, ?_⟩
  rw [actionInfo_reread_iff (Option.some_get _).symm (by decide) run hcards]
  decide +kernel

/-- Fifteen raises of one betting round no longer fit: the text loses its end and is read without an
error. -/
theorem actionInfo_reread_cut :
    ∃ g trace m, readGame duelFile = some g ∧ g.numPlayers = 2 ∧ g.bettingType = .noLimitBetting ∧
      BettingRun g trace m.state ∧ m.ValidCards ∧
      m.state.holeCards 1 0 ≠ m.state.holeCards 1 1 ∧ m.state.round = 0 ∧
      (getActionInfo m).actionSeq.length = 67 ∧
      (ActionInfo.fromText (getActionInfo m).toText).toOption.map (fun info => info.actionSeq.length) = some 62 ∧
      ActionInfo.fromText (getActionInfo m).toText ≠ .ok (getActionInfo m) := by
  obtain ⟨trace, run⟩ := raisedState_run 15
  have hlength : (getActionInfo (raisedState 15)).actionSeq.length = 67 := by
    decide +kernel
  have hcut : (ActionInfo.fromText (getActionInfo (raisedState 15)).toText).toOption.map
      (fun info => info.actionSeq.length) = some 62 := by
    decide +kernel
  refine ⟨duelGame, trace, raisedState 15, (Option.some_get _).symm, by decide, by decide, run,
    ⟨by decide +kernel, by decide +kernel⟩, by decide +kernel, by decide +kernel, hlength, hcut, ?_⟩
  intro h
  rw [h] at hcut
  have hsame : (getActionInfo (raisedState 15)).actionSeq.length = 62 := Option.some.inj hcut
  omega

end MasterAI
