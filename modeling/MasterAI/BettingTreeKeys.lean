import MasterAI.RecordedActions
import MasterAI.ActionInfo
import MasterAI.StateRoundTrip

namespace MasterAI

def btKeyPre : List Char := ['B', 'T', 'K', '_']

/-- The key under which `GetNode` looks, which names the root where no action was made. -/
def nodeKey (actionSeq : List Char) : List Char :=
  if actionSeq.length = 0 then btKeyPre ++ ['r', 'o', 'o', 't'] else btKeyPre ++ actionSeq

structure BettingTree where
  initState : Nat
  table : List (List Char × NodeInfo)

/-- The record of the table that holds the key of an action sequence. -/
def BettingTree.record? (tree : BettingTree) (actionSeq : List Char) : Option Nat :=
  tree.table.findIdx? fun entry => entry.1 = nodeKey actionSeq

def BettingTree.getNode (tree : BettingTree) (actionSeq : List Char) : Except Int NodeInfo :=
  if tree.initState = 1 then
    match (tree.record? actionSeq).bind fun i => tree.table[i]? with
    | none => .error (-106)
    | some entry => .ok entry.2
  else .error (-116)

theorem scanNumber_printInt (x : Int) {rest : List Char} (hr : StopsNumber rest) :
    scanNumber (printInt x ++ rest) = some (decide (x < 0), x.natAbs, rest) := by
  unfold printInt
  split
  next hneg => simpa [hneg] using scanNumber_printNat_minus (n := x.natAbs) hr
  next hpos => simpa [hpos] using scanNumber_printNat (n := x.natAbs) hr

theorem printInt_append_inj {x y : Int} {rest rest' : List Char} (hr : StopsNumber rest)
    (hr' : StopsNumber rest') (h : printInt x ++ rest = printInt y ++ rest') : x = y ∧ rest = rest' := by
  have hscan := scanNumber_printInt x hr
  rw [h, scanNumber_printInt y hr'] at hscan
  simp only [Option.some.injEq, Prod.mk.injEq, decide_eq_decide] at hscan
  obtain ⟨hsign, habs, hrest⟩ := hscan
  exact ⟨by omega, hrest.symm⟩

theorem stopsNumber_actions (actions : List Action) (hvalid : ∀ a ∈ actions, a.type ≠ .invalid) :
    StopsNumber (actions.flatMap getSingleActionStr) := by
  cases actions with
  | nil => simp [StopsNumber]
  | cons a rest =>
    obtain ⟨type, size⟩ := a
    cases type with
    | fold => simp [StopsNumber, getSingleActionStr]
    | call => simp [StopsNumber, getSingleActionStr]
    | raise => simp [StopsNumber, getSingleActionStr]
    | invalid => exact absurd rfl (hvalid ⟨.invalid, size⟩ (by simp))

/-- The texts of actions, put one after another, give the actions back. -/
theorem actionStrs_inj {xs ys : List Action} (hx : ∀ a ∈ xs, a.type ≠ .invalid)
    (hy : ∀ a ∈ ys, a.type ≠ .invalid)
    (h : xs.flatMap getSingleActionStr = ys.flatMap getSingleActionStr) : xs.map bare = ys.map bare := by
  have hne : ∀ a : Action, a.type ≠ .invalid → getSingleActionStr a ≠ [] := by
    intro a ha
    obtain ⟨type, size⟩ := a
    cases type with
    | fold => simp [getSingleActionStr]
    | call => simp [getSingleActionStr]
    | raise => simp [getSingleActionStr]
    | invalid => exact absurd rfl ha
  induction xs generalizing ys with
  | nil =>
    cases ys with
    | nil => rfl
    | cons b ys =>
      simp only [List.flatMap_nil, List.flatMap_cons] at h
      exact absurd (List.append_eq_nil_iff.mp h.symm).1 (hne b (hy b (by simp)))
  | cons a xs ih =>
    cases ys with
    | nil =>
      simp only [List.flatMap_nil, List.flatMap_cons] at h
      exact absurd (List.append_eq_nil_iff.mp h).1 (hne a (hx a (by simp)))
    | cons b ys =>
      have hxs : ∀ a ∈ xs, a.type ≠ .invalid := fun c hc => hx c (by simp [hc])
      have hys : ∀ a ∈ ys, a.type ≠ .invalid := fun c hc => hy c (by simp [hc])
      have hhead : bare a = bare b ∧ xs.flatMap getSingleActionStr = ys.flatMap getSingleActionStr := by
        have ha := hx a (by simp)
        have hb := hy b (by simp)
        obtain ⟨type, size⟩ := a
        obtain ⟨type', size'⟩ := b
        simp only [List.flatMap_cons] at h
        cases type <;> cases type' <;> simp only [getSingleActionStr, List.cons_append, List.nil_append,
          List.cons.injEq, reduceCtorEq, Char.reduceEq, false_and, true_and, ne_eq,
          not_true_eq_false] at h ha hb ⊢
        · exact ⟨rfl, h⟩
        · exact ⟨rfl, h⟩
        · obtain ⟨rfl, hrest⟩ := printInt_append_inj (stopsNumber_actions xs hxs)
            (stopsNumber_actions ys hys) h
          exact ⟨rfl, hrest⟩
      simp only [List.map_cons, hhead.1, ih hxs hys hhead.2]

theorem mem_getSingleActionStr {a : Action} {c : Char} (hc : c ∈ getSingleActionStr a) :
    c ∈ ['f', 'c', 'r', '-'] ∨ c.isDigit = true := by
  obtain ⟨type, size⟩ := a
  cases type with
  | fold => exact Or.inl (by simp_all [getSingleActionStr])
  | call => exact Or.inl (by simp_all [getSingleActionStr])
  | raise =>
    simp only [getSingleActionStr, printInt, List.mem_cons] at hc
    rcases hc with rfl | hc
    · exact Or.inl (by simp)
    · split at hc
      · rcases List.mem_cons.mp hc with rfl | hc
        · exact Or.inl (by simp)
        · exact Or.inr (printNat_digits c hc)
      · exact Or.inr (printNat_digits c hc)
  | invalid => simp [getSingleActionStr] at hc

theorem mem_getActionSeq {m : MatchState} {c : Char} (hc : c ∈ getActionSeq m) :
    c = ' ' ∨ c ∈ ['f', 'c', 'r', '-'] ∨ c.isDigit = true := by
  obtain ⟨st, -, hc⟩ := List.mem_flatMap.mp hc
  rcases List.mem_append.mp hc with hc | hc
  · split at hc
    · exact Or.inl (List.mem_singleton.mp hc)
    · simp at hc
  · obtain ⟨e, -, hc⟩ := List.mem_flatMap.mp hc
    exact Or.inr (mem_getSingleActionStr hc)

theorem root_ne_getActionSeq (m : MatchState) : getActionSeq m ≠ ['r', 'o', 'o', 't'] := by
  intro h
  have ho : 'o' ∈ getActionSeq m := by simp [h]
  rcases mem_getActionSeq ho with ho | ho | ho
  · exact absurd ho (by decide)
  · exact absurd ho (by decide)
  · exact absurd ho (by decide)

/-- Different action sequences have different keys. -/
theorem nodeKey_inj {m m' : MatchState} (h : nodeKey (getActionSeq m) = nodeKey (getActionSeq m')) :
    getActionSeq m = getActionSeq m' := by
  unfold nodeKey at h
  split at h
  next hm =>
    split at h
    next hm' => rw [List.length_eq_zero_iff.mp hm, List.length_eq_zero_iff.mp hm']
    next => exact absurd (List.append_cancel_left h).symm (root_ne_getActionSeq m')
  next =>
    split at h
    next => exact absurd (List.append_cancel_left h) (root_ne_getActionSeq m)
    next => exact List.append_cancel_left h

/-- Without its separators the sequence is the texts of the actions in the order they were made. -/
theorem getActionSeq_filter (m : MatchState) :
    (getActionSeq m).filter (· ≠ ' ') = (m.state.history.map Prod.fst).flatMap getSingleActionStr := by
  have hkeep : ∀ a : Action, (getSingleActionStr a).filter (· ≠ ' ') = getSingleActionStr a := by
    intro a
    refine List.filter_eq_self.mpr fun c hc => ?_
    rw [decide_eq_true_eq]
    rintro rfl
    rcases mem_getSingleActionStr hc with hc | hc
    · exact absurd hc (by decide)
    · exact absurd hc (by decide)
  unfold getActionSeq State.history
  rw [List.filter_flatMap, List.flatMap_map, List.flatMap_assoc]
  apply List.flatMap_congr
  intro st _
  have hsep : (if m.state.numActions st > 0 ∧ st > 0 then [' '] else []).filter (· ≠ ' ') = [] := by
    split <;> rfl
  rw [List.filter_append, hsep, List.nil_append, List.filter_flatMap]
  exact List.flatMap_congr fun e _ => hkeep e.1

/-- The number of the hand has no part in the betting. -/
def State.renumber (s : State) (handId : UInt32) : State := { s with handId := handId }

theorem currentPlayer_renumber (g : Game) (s : State) (handId : UInt32) :
    currentPlayer g (s.renumber handId) = currentPlayer g s := by
  rw [currentPlayer_eq, currentPlayer_eq]
  rfl

theorem numCalled_renumber (g : Game) (s : State) (handId : UInt32) :
    numCalled g (s.renumber handId) = numCalled g s := by
  change numCalledLoop g (s.renumber handId) (s.action s.round).reverse = _
  unfold numCalled
  generalize (s.action s.round).reverse = l
  induction l with
  | nil => rfl
  | cons e l ih =>
    simp only [numCalledLoop, ih]
    rfl

theorem bet_renumber (g : Game) (p : Nat) (a : Action) (s : State) (handId : UInt32) :
    bet g p a (s.renumber handId) = (bet g p a s).map fun t => t.renumber handId := by
  obtain ⟨type, size⟩ := a
  cases type with
  | fold => rfl
  | call => rfl
  | raise =>
    cases hb : g.bettingType with
    | limitBetting =>
      simp only [bet, hb]
      rfl
    | noLimitBetting =>
      simp only [bet, hb]
      change (if s.maxSpent < size ∧ size ≤ g.stack p then _ else _) = _
      split
      · rfl
      · rfl
  | invalid => rfl

theorem trackRoundSpent_renumber (a : Action) (s : State) (handId : UInt32) :
    trackRoundSpent a (s.renumber handId) = (trackRoundSpent a s).renumber handId := by
  unfold trackRoundSpent
  change (if s.round = 0 then _ else if a.type = .raise then _ else _) = _
  split_ifs <;> rfl

theorem endRound_renumber (g : Game) (s : State) (handId : UInt32) :
    endRound g (s.renumber handId) = ((endRound g s).1.renumber handId, (endRound g s).2) := by
  have hfold : numFolded g (s.renumber handId) = numFolded g s := rfl
  have hacting : numActingPlayers g (s.renumber handId) = numActingPlayers g s := rfl
  unfold endRound
  rw [hfold, hacting, numCalled_renumber]
  change (if numFolded g s + 1 ≥ g.numPlayers then _ else if numCalled g s ≥ numActingPlayers g s then
    if numActingPlayers g s > 1 then if s.round + 1 < g.numRounds then _ else _ else _ else _) = _
  split_ifs <;> rfl

theorem doAction_renumber (g : Game) (a : Action) (s : State) (handId : UInt32) :
    doAction g a (s.renumber handId) = (doAction g a s).map fun r => (r.1.renumber handId, r.2) := by
  unfold doAction
  simp only [currentPlayer_renumber, bet_renumber]
  change (if currentPlayer g s < g.numPlayers ∧ s.numActions s.round < maxNumActions then _ else _) = _
  split
  · cases bet g (currentPlayer g s) a s with
    | none => rfl
    | some u => simp [trackRoundSpent_renumber, endRound_renumber]
  · rfl

theorem replayActions_renumber (g : Game) (actions : List Action) (s : State) (handId : UInt32) :
    replayActions g actions (s.renumber handId) =
      (replayActions g actions s).map fun t => t.renumber handId := by
  induction actions generalizing s with
  | nil => rfl
  | cons a rest ih =>
    simp only [replayActions, doAction_renumber]
    cases doAction g a s with
    | none => rfl
    | some t => exact ih t.1

/-- The same round with the same actions in every round of the game. -/
def SameActions (g : Game) (s s' : State) : Prop :=
  s.round = s'.round ∧ ∀ r < g.numRounds, s.action r = s'.action r

/-- Hands whose records give the same texts are the same hand. -/
theorem RecordInv.sameActions {g : Game} {s s' : State} (h : RecordInv g s) (h' : RecordInv g s')
    (htext : (s.history.map Prod.fst).flatMap getSingleActionStr =
      (s'.history.map Prod.fst).flatMap getSingleActionStr) : SameActions g s s' := by
  have hvalid : ∀ a ∈ s.history.map Prod.fst, a.type ≠ .invalid := by
    intro a ha
    obtain ⟨e, he, rfl⟩ := List.mem_map.mp ha
    exact h.valid e he
  have hvalid' : ∀ a ∈ s'.history.map Prod.fst, a.type ≠ .invalid := by
    intro a ha
    obtain ⟨e, he, rfl⟩ := List.mem_map.mp ha
    exact h'.valid e he
  have hfold : ∀ a ∈ s.history.map Prod.fst, a.type = .fold → a.size = 0 := by
    intro a ha
    obtain ⟨e, he, rfl⟩ := List.mem_map.mp ha
    exact h.foldBare e he
  have hfold' : ∀ a ∈ s'.history.map Prod.fst, a.type = .fold → a.size = 0 := by
    intro a ha
    obtain ⟨e, he, rfl⟩ := List.mem_map.mp ha
    exact h'.foldBare e he
  obtain ⟨t, ht, hsame⟩ := h.replayed blankState
  obtain ⟨t', ht', hsame'⟩ := h'.replayed blankState
  have hstart : initState g s'.handId blankState = (initState g s.handId blankState).renumber s'.handId := rfl
  rw [← replayActions_bare hfold', ← actionStrs_inj hvalid hvalid' htext, replayActions_bare hfold, hstart,
    replayActions_renumber, ht] at ht'
  cases Option.some.inj ht'
  refine ⟨hsame.round.symm.trans hsame'.round, fun r hr => ?_⟩
  exact (hsame.action r hr).symm.trans (hsame'.action r hr)

/-- The action sequence of a reachable state determines its betting, and so does the record of the
betting tree that is found for it. -/
theorem actionSeq_determines {lines : List GameLine} {g : Game} (hgame : readGame lines = some g)
    {m m' : MatchState} {trace trace' : List (Transition State Action)} (run : BettingRun g trace m.state)
    (run' : BettingRun g trace' m'.state) :
    (getActionSeq m = getActionSeq m' → SameActions g m.state m'.state) ∧
      ∀ (tree : BettingTree) (i : Nat), tree.record? (getActionSeq m) = some i →
        tree.record? (getActionSeq m') = some i → SameActions g m.state m'.state := by
  have wf := readGame_wellFormed hgame
  have hseq : getActionSeq m = getActionSeq m' → SameActions g m.state m'.state := by
    intro h
    apply (recorded_of_run wf run).sameActions (recorded_of_run wf run')
    rw [← getActionSeq_filter, ← getActionSeq_filter, h]
  refine ⟨hseq, fun tree i hi hi' => hseq ?_⟩
  obtain ⟨hlt, hkey, -⟩ := List.findIdx?_eq_some_iff_getElem.mp hi
  obtain ⟨_, hkey', -⟩ := List.findIdx?_eq_some_iff_getElem.mp hi'
  exact nodeKey_inj ((of_decide_eq_true hkey).symm.trans (of_decide_eq_true hkey'))

def openedState : MatchState where
  state := (playFrom twoRoundGame [⟨.raise, 150⟩]).2
  viewingPlayer := 1

/-- Another hand with the same raise, in a structure that is not cleared. -/
def openedAgain : MatchState where
  state := (playHand twoRoundGame 7 { blankState with boardCards := fun i => 51 - i, round := 1, finished := true }
    [⟨.raise, 150⟩]).2
  viewingPlayer := 0

theorem actionSeq_determines_opened :
    SameActions twoRoundGame openedState.state openedAgain.state ∧
      openedState.state.handId ≠ openedAgain.state.handId := by
  have run := (playFrom_run twoRoundGame [⟨.raise, 150⟩]).weaken fun _ _ _ => StrictMove.move
  have run' := (playHand_run twoRoundGame 7
    { blankState with boardCards := fun i => 51 - i, round := 1, finished := true } [⟨.raise, 150⟩]).weaken
    fun _ _ _ => StrictMove.move
  have hseq : getActionSeq openedState = getActionSeq openedAgain := by decide +kernel
  have hread : readGame twoRoundFile = some twoRoundGame := (Option.some_get _).symm
  have hsame := @actionSeq_determines twoRoundFile _ hread openedState openedAgain _ _ run run'
  exact ⟨hsame.1 hseq, by decide +kernel⟩

end MasterAI
