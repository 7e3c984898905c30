import MasterAI.SessionRuns

namespace MasterAI

/-- The same bets in a hand with another number and other cards. -/
def State.redealt (s : State) (hand : UInt32) (board : Nat → Nat) (hole : Nat → Nat → Nat) : State :=
  { s with handId := hand, boardCards := board, holeCards := hole }

/-- Two states differ at most in the number and the cards of the hand. -/
def SameChips (s t : State) : Prop := ∃ hand board hole, t = s.redealt hand board hole

/-- The second state has the number and the cards of the first. -/
def SameDeal (s t : State) : Prop := t = t.redealt s.handId s.boardCards s.holeCards

section

variable {g : Game} {s t u : State} {hand : UInt32} {board : Nat → Nat} {hole : Nat → Nat → Nat}

theorem SameChips.symm (h : SameChips s t) : SameChips t s := by
  obtain ⟨hand, board, hole, rfl⟩ := h
  exact ⟨s.handId, s.boardCards, s.holeCards, rfl⟩

theorem SameChips.trans (h : SameChips s t) (k : SameChips t u) : SameChips s u := by
  obtain ⟨hand, board, hole, rfl⟩ := h
  obtain ⟨hand', board', hole', rfl⟩ := k
  exact ⟨hand', board', hole', rfl⟩

theorem SameTable.sameChips (h : SameTable s t) : SameChips s t :=
  ⟨s.handId, t.boardCards, t.holeCards, h⟩

theorem currentPlayer_redealt (g : Game) (s : State) (hand : UInt32) (board : Nat → Nat)
    (hole : Nat → Nat → Nat) : currentPlayer g (s.redealt hand board hole) = currentPlayer g s := by
  have hloop : ∀ left n, nextPlayerLoop g (s.redealt hand board hole) left n = nextPlayerLoop g s left n := by
    intro left
    induction left with
    | zero => intro n; rfl
    | succ left ih =>
      intro n
      have hcan : ∀ p, canAct g (s.redealt hand board hole) p = canAct g s p := fun _ => rfl
      simp only [nextPlayerLoop, hcan, ih]
  simp only [currentPlayer, nextPlayer, hloop]
  rfl

theorem numCalled_redealt (g : Game) (s : State) (hand : UInt32) (board : Nat → Nat)
    (hole : Nat → Nat → Nat) : numCalled g (s.redealt hand board hole) = numCalled g s := by
  have hloop : ∀ l, numCalledLoop g (s.redealt hand board hole) l = numCalledLoop g s l := by
    intro l
    induction l with
    | nil => rfl
    | cons e l ih =>
      have hspent : (s.redealt hand board hole).spent = s.spent := rfl
      simp only [numCalledLoop, hspent, ih]
  exact hloop _

theorem isValidAction_redealt (g : Game) (s : State) (hand : UInt32) (board : Nat → Nat)
    (hole : Nat → Nat → Nat) (fixing : Bool) (a : Action) :
    isValidAction g (s.redealt hand board hole) fixing a = isValidAction g s fixing a := by
  have hplayer := currentPlayer_redealt g s hand board hole
  have hraise : raiseIsValid g (s.redealt hand board hole) = raiseIsValid g s := by
    unfold raiseIsValid
    rw [hplayer]
    rfl
  unfold isValidAction
  simp only [hplayer, hraise]
  rfl

theorem bet_redealt (g : Game) (p : Nat) (a : Action) (s : State) (hand : UInt32) (board : Nat → Nat)
    (hole : Nat → Nat → Nat) :
    bet g p a (s.redealt hand board hole) = (bet g p a s).map fun u => u.redealt hand board hole := by
  unfold bet
  cases a.type with
  | fold => rfl
  | call => rfl
  | raise =>
    cases g.bettingType with
    | limitBetting => rfl
    | noLimitBetting =>
      by_cases hfits : s.maxSpent < a.size ∧ a.size ≤ g.stack p
      · simp only [State.redealt, hfits, and_self, if_true, Option.map_some]
        rfl
      · simp only [State.redealt, hfits, if_false, Option.map_none]
  | invalid => rfl

theorem trackRoundSpent_redealt (a : Action) (s : State) (hand : UInt32) (board : Nat → Nat)
    (hole : Nat → Nat → Nat) :
    trackRoundSpent a (s.redealt hand board hole) = (trackRoundSpent a s).redealt hand board hole := by
  by_cases hround : s.round = 0
  · simp only [trackRoundSpent, State.redealt, hround, if_true]
  · by_cases htype : a.type = .raise
    · simp only [trackRoundSpent, State.redealt, hround, htype, if_true, if_false]
    · simp only [trackRoundSpent, State.redealt, hround, htype, if_false]

theorem endRound_redealt (g : Game) (s : State) (hand : UInt32) (board : Nat → Nat)
    (hole : Nat → Nat → Nat) :
    endRound g (s.redealt hand board hole) =
      ((endRound g s).1.redealt hand board hole, (endRound g s).2) := by
  have hfolded : numFolded g (s.redealt hand board hole) = numFolded g s := rfl
  have hacting : numActingPlayers g (s.redealt hand board hole) = numActingPlayers g s := rfl
  have hcalled := numCalled_redealt g s hand board hole
  unfold endRound
  rw [hfolded, hacting, hcalled]
  by_cases hlast : numFolded g s + 1 ≥ g.numPlayers
  · simp only [hlast, if_true]
    rfl
  · by_cases hall : numCalled g s ≥ numActingPlayers g s
    · by_cases hmany : numActingPlayers g s > 1
      · by_cases hround : s.round + 1 < g.numRounds
        · simp only [hlast, hall, hmany, hround, State.redealt, if_true, if_false]
        · simp only [hlast, hall, hmany, hround, State.redealt, if_true, if_false]
      · simp only [hlast, hall, hmany, State.redealt, if_true, if_false]
    · simp only [hlast, hall, if_false]

/-- Neither the number of a hand nor its cards matter to a bet. -/
theorem doAction_redealt (g : Game) (a : Action) (s : State) (hand : UInt32) (board : Nat → Nat)
    (hole : Nat → Nat → Nat) :
    doAction g a (s.redealt hand board hole) =
      (doAction g a s).map fun done => (done.1.redealt hand board hole, done.2) := by
  have hplayer := currentPlayer_redealt g s hand board hole
  have hroom : (s.redealt hand board hole).numActions (s.redealt hand board hole).round =
      s.numActions s.round := rfl
  unfold doAction
  simp only [hplayer, hroom]
  by_cases henters : currentPlayer g s < g.numPlayers ∧ s.numActions s.round < maxNumActions
  · rw [if_pos henters, if_pos henters, bet_redealt, Option.map_map, Option.map_map]
    congr 1
    funext u
    simp only [Function.comp_apply, trackRoundSpent_redealt, endRound_redealt]
  · rw [if_neg henters, if_neg henters, Option.map_none]

theorem doAction_sameDeal {a : Action} {ended : Bool} (h : doAction g a s = some (t, ended)) : SameDeal s t := by
  have hdeal := doAction_redealt g a s s.handId s.boardCards s.holeCards
  rw [h, Option.map_some] at hdeal
  have hsame : doAction g a s = some (t.redealt s.handId s.boardCards s.holeCards, ended) := hdeal
  rw [h] at hsame
  exact congrArg Prod.fst (Option.some.inj hsame)

end

/-- Two sessions on opposite seats of one hand, each with the robot of the other as its player. -/
structure Mirrored (r t : RunGame) : Prop where
  gameType : t.gameType = r.gameType
  seats : r.matchState.viewingPlayer + t.matchState.viewingPlayer = 1
  playerID : t.playerID = r.robotID
  robotID : r.playerID = t.robotID
  left_ne_zero : r.robotID ≠ 0
  right_ne_zero : t.robotID ≠ 0
  distinct : r.robotID ≠ t.robotID
  chips : SameChips r.state t.state

namespace RunGame

variable {conf : Conf} {env env' : Env} {g : Game} {r r' t t' : RunGame} {type betNum uid : Int}

theorem stoi_fits {text : List Char} {x : Int} (h : stoi text = some x) : FitsInt32 x := by
  unfold stoi at h
  cases hscan : scanNumber text with
  | none =>
    rw [hscan] at h
    cases h
  | some found =>
    obtain ⟨negative, n, rest⟩ := found
    rw [hscan] at h
    dsimp only at h
    generalize (if negative = true then -(n : Int) else n) = value at h
    by_cases hfits : -2147483648 ≤ value ∧ value ≤ int32Max
    · rw [if_pos hfits] at h
      cases h
      exact hfits
    · rw [if_neg hfits] at h
      cases h

theorem exists_of_mem_mapM {α β : Type} {f : α → Option β} {l : List α} {found : List β}
    (h : l.mapM f = some found) {y : β} (hy : y ∈ found) : ∃ x ∈ l, f x = some y := by
  induction l generalizing found with
  | nil =>
    cases h
    cases hy
  | cons x l ih =>
    simp only [List.mapM_cons, Option.bind_eq_bind, Option.bind_eq_some_iff, Option.pure_def,
      Option.some.injEq] at h
    obtain ⟨z, hz, rest, hrest, rfl⟩ := h
    rcases List.mem_cons.mp hy with rfl | hy
    · exact ⟨x, by simp, hz⟩
    · obtain ⟨w, hw, hfw⟩ := ih hrest hy
      exact ⟨w, by simp [hw], hfw⟩

/-- The raises of the betting tree are 32-bit numbers. -/
theorem getAllowRaises_fits {code : Int} {raises : List Int} (h : getAllowRaises env r = some (code, raises)) :
    ∀ x ∈ raises, FitsInt32 x := by
  intro x hx
  unfold getAllowRaises at h
  split at h
  · cases h
    cases hx
  · next node hnode =>
    obtain ⟨found, hfound, hpair⟩ := Option.map_eq_some_iff.mp h
    cases hpair
    obtain ⟨c, -, hc⟩ := exists_of_mem_mapM hfound hx
    exact stoi_fits hc

theorem fits_of_enters (h : r.Enters conf env uid 2 betNum) :
    FitsInt32 (r.givenAction uid 2 betNum).size := by
  obtain ⟨g, -, -, hcheck⟩ := h
  have hraise : (r.givenAction uid 2 betNum).type = .raise := rfl
  unfold checkAction at hcheck
  rw [hraise] at hcheck
  dsimp only at hcheck
  split at hcheck
  · cases hcheck
  · obtain ⟨⟨code, raises⟩, hallow, hresult⟩ := Option.map_eq_some_iff.mp hcheck
    dsimp only at hresult
    by_cases hcode : code = 0
    · rw [if_neg (not_not.mpr hcode)] at hresult
      by_cases hmem : (r.givenAction uid 2 betNum).size ∈ raises
      · exact getAllowRaises_fits hallow _ hmem
      · rw [if_neg hmem] at hresult
        cases hresult
    · rw [if_pos hcode] at hresult
      cases hresult

/-- `DoAction` succeeds where its checks and the game do. -/
theorem doAction_of_enters {u : State} {ended : Bool} (hg : conf.getGame r.gameType = some g)
    (h : r.Enters conf env uid type betNum)
    (hdo : MasterAI.doAction g (r.givenAction uid type betNum) r.state = some (u, ended)) :
    ∃ t, r.doAction conf env uid type betNum = some (t, 0) ∧ SameSeats r t ∧ t.state = u := by
  obtain ⟨g', hg', hturn, hcheck⟩ := h
  cases hg.symm.trans hg'
  unfold doAction
  extract_lets noted a
  have hgame : conf.getGame noted.gameType = some g := hg
  have hplayer : noted.getCurrentPlayerID conf = uid := hturn
  have hchecked : noted.checkAction env g a = some 0 := hcheck
  have hbet : MasterAI.doAction g a noted.state = some (u, ended) := hdo
  rw [hgame]
  dsimp only
  rw [if_neg (not_not.mpr hplayer), hchecked]
  dsimp only
  rw [if_neg (not_not.mpr rfl), hbet, Option.map_some]
  exact ⟨_, rfl, ⟨rfl, rfl, rfl, rfl⟩, rfl⟩

end RunGame

section

variable {conf : Conf} {env env' : Env} {g : Game} {r r' t t' : RunGame} {type betNum : Int}

open RunGame

theorem Mirrored.symm (h : Mirrored r t) : Mirrored t r where
  gameType := h.gameType.symm
  seats := by
    have := h.seats
    omega
  playerID := h.robotID
  robotID := h.playerID
  left_ne_zero := h.right_ne_zero
  right_ne_zero := h.left_ne_zero
  distinct := h.distinct.symm
  chips := h.chips.symm

/-- Steps that keep the seats and lead to the same chips keep the mirror. -/
theorem Mirrored.step (h : Mirrored r t) (left : SameSeats r r') (right : SameSeats t t')
    (chips : SameChips r'.state t'.state) : Mirrored r' t' where
  gameType := by rw [left.gameType, right.gameType, h.gameType]
  seats := by rw [left.viewingPlayer, right.viewingPlayer, h.seats]
  playerID := by rw [left.robotID, right.playerID, h.playerID]
  robotID := by rw [left.playerID, right.robotID, h.robotID]
  left_ne_zero := by
    rw [left.robotID]
    exact h.left_ne_zero
  right_ne_zero := by
    rw [right.robotID]
    exact h.right_ne_zero
  distinct := by
    rw [left.robotID, right.robotID]
    exact h.distinct
  chips := chips

theorem Mirrored.kept (h : Mirrored r t) (k : Kept r r') : Mirrored r' t :=
  h.step k.toSameSeats ⟨rfl, rfl, rfl, rfl⟩ (k.table.sameChips.symm.trans h.chips)

/-- The increase that one robot reports is the total that the other session hands to the game. -/
theorem Mirrored.givenAction (h : Mirrored r t) (enters : r.Enters conf env r.robotID type betNum) :
    t.givenAction r.robotID type (r.noteAction r.robotID type betNum).betNum =
      r.givenAction r.robotID type betNum := by
  by_cases htype : type = 2
  · subst htype
    have hfits : FitsInt32 betNum := by
      have hsize : (r.givenAction r.robotID 2 betNum).size = betNum := by
        simp [RunGame.givenAction, noteAction]
      rw [← hsize]
      exact fits_of_enters enters
    have hseat : (t.matchState.viewingPlayer + 1) % 2 = r.matchState.viewingPlayer := by
      have := h.seats
      omega
    obtain ⟨hand, board, hole, hchips⟩ := h.chips
    have hspent : t.state.spent = r.state.spent := by
      rw [hchips]
      rfl
    have hback : ∀ x : Int, wrapInt32 (wrapInt32 (betNum - x) + x) = betNum := by
      intro x
      unfold FitsInt32 int32Max at hfits
      simp only [wrapInt32, Int.bmod_def]
      omega
    simp [RunGame.givenAction, noteAction, h.distinct, hseat, hspent, hback]
  · simp [RunGame.givenAction, noteAction, htype]

theorem Mirrored.checkAction (h : Mirrored r t) (htree : env'.tree = env.tree) (a : Action) :
    t.checkAction env' g a = r.checkAction env g a := by
  obtain ⟨hand, board, hole, hchips⟩ := h.chips
  have hvalid : isValidAction g t.state false a = isValidAction g r.state false a := by
    rw [hchips]
    exact isValidAction_redealt g r.state hand board hole false a
  have hseq : (getActionInfo t.matchState).actionSeq = (getActionInfo r.matchState).actionSeq := by
    have hstate : t.matchState.state = r.matchState.state.redealt hand board hole := hchips
    simp only [getActionInfo, getActionSeq, hstate]
    rfl
  have hraises : getAllowRaises env' t = getAllowRaises env r := by
    unfold getAllowRaises
    rw [hseq, htree]
  unfold RunGame.checkAction
  rw [hvalid, hraises]

/-- On the turn of one robot the other session waits for that player. -/
theorem Mirrored.getCurrentPlayerID (h : Mirrored r t) (turn : r.getCurrentPlayerID conf = r.robotID) :
    t.getCurrentPlayerID conf = r.robotID := by
  obtain ⟨hand, board, hole, hchips⟩ := h.chips
  have hfinished : t.state.finished = r.state.finished := by
    rw [hchips]
    rfl
  have hplayer : ∀ g, currentPlayer g t.state = currentPlayer g r.state := by
    intro g
    rw [hchips]
    exact currentPlayer_redealt g r.state hand board hole
  unfold RunGame.getCurrentPlayerID at turn ⊢
  rw [hfinished, h.gameType]
  by_cases hfin : r.state.finished = true
  · rw [if_pos hfin] at turn
    exact absurd turn.symm h.left_ne_zero
  · rw [if_neg hfin] at turn ⊢
    cases hg : conf.getGame r.gameType with
    | none =>
      rw [hg] at turn
      exact absurd turn.symm h.left_ne_zero
    | some g =>
      rw [hg] at turn
      simp only [hplayer] at turn ⊢
      by_cases hnone : currentPlayer g r.state ≥ g.numPlayers
      · rw [if_pos hnone] at turn
        exact absurd turn.symm h.left_ne_zero
      · rw [if_neg hnone] at turn ⊢
        by_cases hown : currentPlayer g r.state = r.matchState.viewingPlayer
        · have hother : currentPlayer g r.state ≠ t.matchState.viewingPlayer := by
            have := h.seats
            omega
          rw [if_neg hother]
          exact h.playerID
        · rw [if_neg hown, h.robotID] at turn
          exact absurd turn.symm h.distinct

/-- What one robot does through `DoAction`, the other session takes over from the notification. -/
theorem Mirrored.follows (h : Mirrored r t) (htree : env'.tree = env.tree)
    (hdo : r.doAction conf env r.robotID type betNum = some (r', 0)) :
    ∃ t', (t.touch env').doAction conf env' r.robotID type r'.lastAction.betNum = some (t', 0) ∧
      SameDeal r.state r'.state ∧ SameDeal t.state t'.state ∧ Mirrored r' t' := by
  have hgame : (conf.getGame r.gameType).isSome := by
    cases hg : conf.getGame r.gameType with
    | none =>
      unfold RunGame.doAction at hdo
      simp [hg] at hdo
    | some g => rfl
  obtain ⟨g, hg⟩ := Option.isSome_iff_exists.mp hgame
  have hmirror : Mirrored r (t.touch env') := (h.symm.kept (Kept.touch env' t)).symm
  rcases RunGame.doAction_cases hg hdo with ⟨hcode, -⟩ | ⟨-, henters, hmoved, -, hlast⟩
  · exact absurd rfl hcode
  · obtain ⟨ended, hbet⟩ := hmoved.act
    have hgiven := hmirror.givenAction henters
    rw [← hlast] at hgiven
    have hg' : conf.getGame (t.touch env').gameType = some g := by
      rw [hmirror.gameType, hg]
    have henters' : (t.touch env').Enters conf env' r.robotID type r'.lastAction.betNum := by
      obtain ⟨g', hg'', hturn, hcheck⟩ := henters
      cases hg.symm.trans hg''
      refine ⟨g, hg', hmirror.getCurrentPlayerID hturn, ?_⟩
      rw [hgiven, hmirror.checkAction htree]
      exact hcheck
    obtain ⟨hand, board, hole, hchips⟩ := hmirror.chips
    have hbet' : doAction g ((t.touch env').givenAction r.robotID type r'.lastAction.betNum)
        (t.touch env').state = some (r'.state.redealt hand board hole, ended) := by
      rw [hgiven, hchips, doAction_redealt, hbet]
      rfl
    obtain ⟨t', hdo', hseats, hstate⟩ := doAction_of_enters hg' henters' hbet'
    refine ⟨t', hdo', doAction_sameDeal hbet, ?_, hmirror.step hmoved.toSameSeats hseats ?_⟩
    · rw [hstate]
      exact doAction_sameDeal hbet'
    · exact ⟨hand, board, hole, hstate⟩

/-- The second session accepts every action of the first one's robot from its notification. -/
def Follows (conf : Conf) (tree : List Char → Option NodeInfo) (r t : RunGame) : Prop :=
  ∀ env env' type betNum r', env.tree = tree → env'.tree = tree →
    r.doAction conf env r.robotID type betNum = some (r', 0) →
    ∃ t', (t.touch env').doAction conf env' r.robotID type r'.lastAction.betNum = some (t', 0) ∧
      t.gameActionNotify conf env' (some ⟨r.robotID, type, r'.lastAction.betNum⟩) = some t' ∧
      SameDeal r.state r'.state ∧ SameDeal t.state t'.state ∧ Mirrored r' t'

theorem Mirrored.followed (h : Mirrored r t) (tree : List Char → Option NodeInfo) : Follows conf tree r t := by
  intro env env' type betNum r' henv henv' hdo
  obtain ⟨t', hdo', hkept⟩ := h.follows (henv'.trans henv.symm) hdo
  refine ⟨t', hdo', ?_, hkept⟩
  simp only [gameActionNotify, if_neg h.right_ne_zero, if_neg h.distinct.symm, hdo', Option.map_some,
    ne_eq, not_true_eq_false, if_false]

end

/-- What happens to a pair of sessions: the robot of one acts and the other is notified, or cards
reach one of them. -/
inductive DuelEvent
  | robotActs (first : Bool) (env env' : Env) (actionType betNum : Int)
  | cards (first : Bool) (env : Env) (pb : Option RunGame.CardsNotify)

/-- The robot of one session acts, and the other gets what the first reports. -/
def Exchange (conf : Conf) (env env' : Env) (actionType betNum : Int) (r t r' t' : RunGame) : Prop :=
  r.doAction conf env r.robotID actionType betNum = some (r', 0) ∧
    t.gameActionNotify conf env' (some ⟨r.robotID, actionType, r'.lastAction.betNum⟩) = some t'

/-- All handlers of a duel read the same betting tree. -/
def DuelStep (conf : Conf) (tree : List Char → Option NodeInfo) (p : RunGame × RunGame) (e : DuelEvent)
    (q : RunGame × RunGame) : Prop :=
  match e with
  | .robotActs true env env' actionType betNum => env.tree = tree ∧ env'.tree = tree ∧
      Exchange conf env env' actionType betNum p.1 p.2 q.1 q.2
  | .robotActs false env env' actionType betNum => env.tree = tree ∧ env'.tree = tree ∧
      Exchange conf env env' actionType betNum p.2 p.1 q.2 q.1
  | .cards true env pb => q = (p.1.gameSendCardsNotify conf env pb, p.2)
  | .cards false env pb => q = (p.1, p.2.gameSendCardsNotify conf env pb)

abbrev DuelRun (conf : Conf) (tree : List Char → Option NodeInfo) :=
  StepRun (DuelStep conf tree) fun p => Mirrored p.1 p.2

section

variable {conf : Conf} {tree : List Char → Option NodeInfo} {p q : RunGame × RunGame} {e : DuelEvent}
  {trace : List (Transition (RunGame × RunGame) DuelEvent)}

theorem gameSendCardsNotify_kept (conf : Conf) (env : Env) (r : RunGame) (pb : Option RunGame.CardsNotify) :
    Kept r (r.gameSendCardsNotify conf env pb) := by
  cases pb with
  | none => exact Kept.refl r
  | some pb =>
    have hkept := (RunGame.doSaveCards_kept conf (r.touch env) pb).1
    simp only [RunGame.gameSendCardsNotify]
    split
    · exact Kept.refl r
    · split
      · exact (Kept.touch env r).trans (hkept.trans ⟨⟨rfl, rfl, rfl, rfl⟩, rfl, rfl⟩)
      · exact (Kept.touch env r).trans hkept

theorem Mirrored.exchange {env env' : Env} {actionType betNum : Int} {r t r' t' : RunGame}
    (h : Mirrored r t) (henv : env.tree = tree) (henv' : env'.tree = tree)
    (hx : Exchange conf env env' actionType betNum r t r' t') : Mirrored r' t' := by
  obtain ⟨hdo, hnotify⟩ := hx
  obtain ⟨u, -, hu, -, -, hmirror⟩ := h.followed tree env env' actionType betNum r' henv henv' hdo
  cases hu.symm.trans hnotify
  exact hmirror

theorem DuelStep.mirrored (hstep : DuelStep conf tree p e q) (h : Mirrored p.1 p.2) : Mirrored q.1 q.2 := by
  cases e with
  | robotActs first env env' actionType betNum =>
    cases first with
    | true => exact h.exchange hstep.1 hstep.2.1 hstep.2.2
    | false => exact (h.symm.exchange hstep.1 hstep.2.1 hstep.2.2).symm
  | cards first env pb =>
    cases first with
    | true =>
      cases hstep
      exact h.kept (gameSendCardsNotify_kept conf env p.1 pb)
    | false =>
      cases hstep
      exact (h.symm.kept (gameSendCardsNotify_kept conf env p.2 pb)).symm

/-- In every run of two mirrored sessions the bets of both are the same, and either takes over every
action of the other's robot. -/
theorem duel_lockstep (run : DuelRun conf tree trace p) :
    Mirrored p.1 p.2 ∧ Follows conf tree p.1 p.2 ∧ Follows conf tree p.2 p.1 := by
  have hmirror : Mirrored p.1 p.2 := run.always (fun _ h => h) fun _ _ _ hstep h => hstep.mirrored h
  exact ⟨hmirror, hmirror.followed tree, hmirror.symm.followed tree⟩

end

/-- The sessions of two robots in one hand: the first has the button. -/
def duelStart : RunGame × RunGame :=
  ((newSession robotSeat).gameBeginNotify tableConf (callingEnv 0) (some (robotButton 1)),
    (newSession playerSeat).gameBeginNotify tableConf (callingEnv 0) (some ⟨1, robotSeat, 0, robotSeat, 1⟩))

theorem duelStart_mirrored : Mirrored duelStart.1 duelStart.2 :=
  ⟨rfl, rfl, rfl, rfl, by decide, by decide, by decide, ⟨1, fun _ => 0, fun _ _ => 0, rfl⟩⟩

/-- The session after an action of its robot, as it was where the action fails. -/
def robotMove (env : Env) (actionType betNum : Int) (r : RunGame) : RunGame :=
  ((r.doAction tableConf env r.robotID actionType betNum).map Prod.fst).getD r

theorem robotMove_doAction {env : Env} {actionType betNum : Int} {r : RunGame}
    (h : (r.doAction tableConf env r.robotID actionType betNum).map Prod.snd = some 0) :
    r.doAction tableConf env r.robotID actionType betNum = some (robotMove env actionType betNum r, 0) := by
  obtain ⟨⟨r', code⟩, hdo, hcode⟩ := Option.map_eq_some_iff.mp h
  have hzero : code = 0 := hcode
  unfold robotMove
  rw [hdo, hzero]
  rfl

/-- The robot with the button raises to six chips in the first hand of two sessions. -/
theorem duel_lockstep_raise :
    ∃ trace p, DuelRun tableConf (callingEnv 0).tree trace p ∧ p.1.lastAction = ⟨2, 5, 6⟩ ∧
      p.2.lastAction = ⟨2, 5, 6⟩ ∧ Mirrored p.1 p.2 ∧ Follows tableConf (callingEnv 0).tree p.1 p.2 ∧
      Follows tableConf (callingEnv 0).tree p.2 p.1 := by
  have hcode : (duelStart.1.doAction tableConf (callingEnv 0) duelStart.1.robotID 2 6).map Prod.snd = some 0 := by
    decide +kernel
  have hdo := robotMove_doAction hcode
  have hfirst : (robotMove (callingEnv 0) 2 6 duelStart.1).lastAction = ⟨2, 5, 6⟩ := by
    decide +kernel
  obtain ⟨t, hfollow, hnotify, -⟩ :=
    duelStart_mirrored.followed _ (callingEnv 0) (callingEnv 0) 2 6 _ rfl rfl hdo
  have hlast : ((duelStart.2.touch (callingEnv 0)).doAction tableConf (callingEnv 0) robotSeat 2 5).map
      (fun done => done.1.lastAction) = some ⟨2, 5, 6⟩ := by
    decide +kernel
  have hsecond : t.lastAction = ⟨2, 5, 6⟩ := by
    rw [hfirst] at hfollow
    rw [show duelStart.1.robotID = robotSeat from rfl] at hfollow
    rw [hfollow] at hlast
    exact Option.some.inj hlast
  have run : DuelRun tableConf (callingEnv 0).tree
      [⟨duelStart, .robotActs true (callingEnv 0) (callingEnv 0) 2 6,
        (robotMove (callingEnv 0) 2 6 duelStart.1, t)⟩] (robotMove (callingEnv 0) 2 6 duelStart.1, t) :=
    .next (.start duelStart_mirrored) ⟨rfl, rfl, hdo, hnotify⟩
  exact ⟨_, _, run, hfirst, hsecond, duel_lockstep run⟩

end MasterAI
