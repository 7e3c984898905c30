import MasterAI.MoneyConservation
import MasterAI.ResultScores
import MasterAI.StateRoundTrip

namespace MasterAI

namespace SidePot

theorem smallest_nonneg {cap : Int} {pot : List Stake} (hcap : 0 ≤ cap) (pos : ∀ e ∈ pot, 0 < e.1) :
    0 ≤ smallest cap pot := by
  rcases smallest_mem cap pot with h | ⟨e, he, h⟩
  · rw [h]
    exact hcap
  · rw [h]
    exact (pos e he).le

/-- One layer of a pot of at most two stakes moves no more than its height. -/
theorem abs_gain_le {size : Int} {pot : List Stake} {e : Stake} (hsize : 0 ≤ size) (hlen : pot.length ≤ 2)
    (he : e ∈ pot) : |gain size pot e.2| ≤ size := by
  have hsize' : (0 : ℚ) ≤ size := by exact_mod_cast hsize
  unfold gain
  split
  next htop =>
    have hpos : 0 < winners pot := List.countP_pos_iff.mpr ⟨e, he, decide_eq_true htop⟩
    have hle : winners pot ≤ pot.length := List.countP_le_length
    generalize winners pot = w at hpos hle
    generalize pot.length = n at hle hlen
    obtain ⟨rfl, hn⟩ | ⟨rfl, rfl⟩ : (w = 1 ∧ (n = 1 ∨ n = 2)) ∨ (w = 2 ∧ n = 2) := by omega
    · rcases hn with rfl | rfl
      · simpa using hsize
      · norm_num
        exact abs_of_nonneg hsize' |>.le
    · simpa using hsize
  next =>
    rw [abs_neg, abs_of_nonneg hsize']

theorem above_pos {cap : Int} {pot : List Stake} {e : Stake} (he : e ∈ above (smallest cap pot) pot) : 0 < e.1 := by
  obtain ⟨hm, hne⟩ := mem_above.mp he
  have := smallest_le cap hm
  dsimp only at this
  omega

/-- Among at most two stakes nobody wins or loses more than the own stake. -/
theorem abs_share_le {cap : Int} (hcap : 0 ≤ cap) {fuel : Nat} {pot : List Stake} {e : Stake} (hlen : pot.length ≤ 2)
    (he : e ∈ pot) (pos : ∀ e ∈ pot, 0 < e.1) : |share cap fuel pot e| ≤ e.1 := by
  induction fuel generalizing pot e with
  | zero =>
    have := (pos e he).le
    simpa [share] using this
  | succ fuel ih =>
    have hgain := abs_gain_le (smallest_nonneg hcap pos) hlen he
    have hle := smallest_le cap he
    unfold share
    split
    next hlast =>
      rw [add_zero, hlast]
      exact hgain
    next hmore =>
      have hmem : (e.1 - smallest cap pot, e.2) ∈ above (smallest cap pot) pot := by
        refine mem_above.mpr ⟨?_, by dsimp only; omega⟩
        simpa using he
      have hshort : (above (smallest cap pot) pot).length ≤ 2 := by
        refine le_trans (List.length_filter_le _ _) ?_
        simpa using hlen
      have hrest := ih hshort hmem fun _ he => above_pos he
      push_cast at hrest
      calc |gain (smallest cap pot) pot e.2 + share cap fuel (above (smallest cap pot) pot) (e.1 - smallest cap pot, e.2)|
          ≤ |gain (smallest cap pot) pot e.2| +
              |share cap fuel (above (smallest cap pot) pot) (e.1 - smallest cap pot, e.2)| := abs_add_le _ _
        _ ≤ smallest cap pot + (e.1 - smallest cap pot) := add_le_add hgain hrest
        _ = e.1 := by ring

end SidePot

/-- The values of the two players of a hand are opposite whole chips that the result of the robot can hold. Nobody
loses more than is spent, and in a showdown of chips nobody wins or loses more than either spent. -/
def FairValues (rankCardset : Nat → Nat) (g : Game) (s : State) : Prop :=
  ∃ v : Int, (valueOfState rankCardset g s 0 = some (v : ℚ) ∧ valueOfState rankCardset g s 1 = some (-v : ℚ)) ∧
    (RunGame.truncate v = v ∧ RunGame.truncate (-v : ℚ) = -v) ∧
    (v < 0 → -v ≤ s.spent 0) ∧ (0 < v → v ≤ s.spent 1) ∧
    (numFolded g s = 0 → 0 < s.spent 0 → 0 < s.spent 1 → |v| ≤ min (s.spent 0) (s.spent 1))

/-- Both players of a showdown have chips in, and a folded player has no negative blind that the other could not pay. -/
def FairStakes (g : Game) (s : State) : Prop :=
  (numFolded g s = 0 → 0 < s.spent 0 ∧ 0 < s.spent 1) ∧
    ∀ p < 2, s.playerFolded p = true → 0 ≤ s.spent p ∨ 0 ≤ s.spent 0 + s.spent 1

section

variable {rankCardset : Nat → Nat} {g : Game} {s : State}

theorem numFolded_two (hn : g.numPlayers = 2) :
    numFolded g s = (if s.playerFolded 0 then 1 else 0) + (if s.playerFolded 1 then 1 else 0) := by
  unfold numFolded
  rw [hn]
  simp [List.range_succ, List.countP_cons, List.countP_nil, Nat.add_comm]

theorem valueOfState_lastPlayer (hn : g.numPlayers = 2) {p q : Nat} (hpq : (p = 0 ∧ q = 1) ∨ (p = 1 ∧ q = 0))
    (hp : s.playerFolded p = false) (hq : s.playerFolded q = true) :
    valueOfState rankCardset g s p = some (s.spent q : ℚ) := by
  have hcount : numFolded g s + 1 = g.numPlayers := by
    rw [numFolded_two hn, hn]
    rcases hpq with ⟨rfl, rfl⟩ | ⟨rfl, rfl⟩
    · simp [hp, hq]
    · simp [hp, hq]
  unfold valueOfState
  rw [if_neg (by simp [hp]), if_pos hcount, hn]
  rcases hpq with ⟨rfl, rfl⟩ | ⟨rfl, rfl⟩
  · simp [List.range_succ]
  · simp [List.range_succ]

theorem truncate_eq {v : Int} (h : FitsInt32 v) : RunGame.truncate (v : ℚ) = v := by
  rw [truncate_int, wrapInt32_eq h]

/-- The value of a fold in a game of two players. -/
theorem fairValues_fold_iff (hn : g.numPlayers = 2) (hstack : ∀ p < g.numPlayers, s.spent p ≤ int32Max) {v : Int}
    (hvalue : valueOfState rankCardset g s 0 = some (v : ℚ) ∧ valueOfState rankCardset g s 1 = some (-v : ℚ))
    (hfold : numFolded g s ≠ 0) : FairValues rankCardset g s ↔ (v < 0 → -v ≤ s.spent 0) ∧ (0 < v → v ≤ s.spent 1) := by
  constructor
  · rintro ⟨w, ⟨hw, -⟩, -, hloss, hwin, -⟩
    have hvw : w = v := by exact_mod_cast Option.some.inj (hw.symm.trans hvalue.1)
    subst hvw
    exact ⟨hloss, hwin⟩
  · rintro ⟨hloss, hwin⟩
    have h0 := hstack 0 (by omega)
    have h1 := hstack 1 (by omega)
    have hfits : FitsInt32 v ∧ FitsInt32 (-v) := by
      unfold FitsInt32
      unfold int32Max at *
      omega
    have hneg := truncate_eq hfits.2
    push_cast at hneg
    exact ⟨v, hvalue, ⟨truncate_eq hfits.1, hneg⟩, hloss, hwin, fun h => absurd h hfold⟩

theorem fairValues_showdown (hn : g.numPlayers = 2) (hstack : ∀ p < g.numPlayers, s.spent p ≤ int32Max)
    (hfold : numFolded g s = 0) (hin : 0 < s.spent 0 ∧ 0 < s.spent 1) : FairValues rankCardset g s := by
  have hunfolded : ∀ p < g.numPlayers, s.playerFolded p = false := by
    intro p hp
    have := List.countP_eq_zero.mp hfold p (List.mem_range.mpr hp)
    simpa using this
  have hspent : ∀ p < g.numPlayers, s.playerFolded p = false → 0 < s.spent p := by
    intro p hp _
    obtain rfl | rfl : p = 0 ∨ p = 1 := by omega
    · exact hin.1
    · exact hin.2
  have hcover : PotsCovered g s := ⟨hspent, fun p hp hf => by rw [hunfolded p hp] at hf; cases hf⟩
  obtain ⟨value, hvalue, hsum⟩ := (conserved_iff_of_showdown hstack (by omega)).mpr hcover
  have hstakes : ∀ e ∈ showdownPot rankCardset g s, ∃ p < g.numPlayers, e = showdownStake rankCardset g s p := by
    intro e he
    obtain ⟨p, hp, rfl⟩ := List.mem_map.mp he
    exact ⟨p, (mem_showdownPlayers.mp hp).1, rfl⟩
  have hcap : ∀ e ∈ showdownPot rankCardset g s, e.1 ≤ int32Max := by
    intro e he
    obtain ⟨p, hp, rfl⟩ := hstakes e he
    exact hstack p hp
  have hpos : ∀ e ∈ showdownPot rankCardset g s, 0 < e.1 := by
    intro e he
    obtain ⟨p, hp, rfl⟩ := hstakes e he
    exact hspent p hp (hunfolded p hp)
  have hlen : (showdownPot rankCardset g s).length ≤ 2 := by
    rw [showdownPot, List.length_map, showdownPlayers]
    refine (List.length_filter_le _ _).trans ?_
    simp [hn]
  have hbound : ∀ p < g.numPlayers, |value p| ≤ s.spent p := by
    intro p hp
    obtain ⟨hmem, hshare⟩ := showdown_value hcap (by omega) hpos hspent hp (hunfolded p hp)
    rw [Option.some.inj ((hvalue p hp).symm.trans hshare)]
    exact SidePot.abs_share_le (by decide) hlen hmem hpos
  obtain ⟨v, hv⟩ := valueOfState_int hn (hvalue 0 (by omega))
  have hother : value 1 = -v := by
    rw [hn] at hsum
    simp only [List.range_succ, List.range_zero, List.nil_append, List.singleton_append, List.map_cons, List.map_nil,
      List.sum_cons, List.sum_nil, add_zero, hv] at hsum
    linarith
  have h0 := hbound 0 (by omega)
  have h1 := hbound 1 (by omega)
  rw [hv] at h0
  rw [hother, abs_neg] at h1
  have hbound0 : |v| ≤ s.spent 0 := by exact_mod_cast h0
  have hbound1 : |v| ≤ s.spent 1 := by exact_mod_cast h1
  have hstack0 := hstack 0 (by omega)
  obtain ⟨hlow, hhigh⟩ := abs_le.mp hbound0
  have hfits : FitsInt32 v ∧ FitsInt32 (-v) := by
    unfold FitsInt32
    unfold int32Max at *
    omega
  have hneg := truncate_eq hfits.2
  push_cast at hneg
  refine ⟨v, ⟨hv ▸ hvalue 0 (by omega), hother ▸ hvalue 1 (by omega)⟩, ⟨truncate_eq hfits.1, hneg⟩, fun _ => by omega,
    fun _ => (le_abs_self v).trans hbound1, fun _ _ _ => le_min hbound0 hbound1⟩

/-- With no fold, both players of fair values have chips in. -/
theorem spent_pos_of_fairValues (hn : g.numPlayers = 2) (hfold : numFolded g s = 0)
    (hunfolded : ∀ p < 2, s.playerFolded p = false) (h : FairValues rankCardset g s) : ∀ p < 2, 0 < s.spent p := by
  obtain ⟨v, ⟨hv0, hv1⟩, -⟩ := h
  have hvalue : ∀ p < g.numPlayers, valueOfState rankCardset g s p = some (if p = 0 then (v : ℚ) else (-v : ℚ)) := by
    intro p hp
    obtain rfl | rfl : p = 0 ∨ p = 1 := by omega
    · exact hv0
    · exact hv1
  obtain ⟨hpos, hmem⟩ := showdown_positive (by omega) hvalue
  intro p hp
  exact hpos _ (List.mem_map.mpr ⟨p, hmem p (by omega) (hunfolded p hp), rfl⟩)

/-- The stakes of a fold: what counts are the chips of the player `p` who folded. -/
theorem fairStakes_fold_iff {p q : Nat} (hpq : (p = 0 ∧ q = 1) ∨ (p = 1 ∧ q = 0)) (hp : s.playerFolded p = true)
    (hq : s.playerFolded q = false) (hfold : numFolded g s ≠ 0) :
    FairStakes g s ↔ 0 ≤ s.spent p ∨ 0 ≤ s.spent 0 + s.spent 1 := by
  constructor
  · intro h
    exact h.2 p (by omega) hp
  · intro h
    refine ⟨fun hnone => absurd hnone hfold, fun x hx hfolded => ?_⟩
    obtain rfl | rfl : x = p ∨ x = q := by omega
    · exact h
    · rw [hq] at hfolded
      cases hfolded

end

/-- Exactly when the values of a reached state of two players are fair. -/
theorem fairValues_iff (rankCardset : Nat → Nat) {lines : List GameLine} {g : Game} (hread : readGame lines = some g)
    (hn : g.numPlayers = 2) {trace : List (Transition State Action)} {s : State} (run : BettingRun g trace s) :
    FairValues rankCardset g s ↔ FairStakes g s := by
  have wf := readGame_wellFormed hread
  have inv := foldInv_of_run wf run
  have hstack : ∀ p < g.numPlayers, s.spent p ≤ int32Max :=
    fun p hp => (inv.spent_le_stack p hp).trans (wf.stack_fits p).2
  have hcount := numFolded_two (s := s) hn
  have hlt := inv.folded_lt
  cases h0 : s.playerFolded 0 with
  | true =>
    cases h1 : s.playerFolded 1 with
    | true =>
      rw [h0, h1, if_pos rfl] at hcount
      omega
    | false =>
      rw [h0, h1, if_pos rfl, if_neg (by decide)] at hcount
      have hvalue : valueOfState rankCardset g s 0 = some ((-s.spent 0 : Int) : ℚ) ∧
          valueOfState rankCardset g s 1 = some (-(-s.spent 0 : Int) : ℚ) := by
        rw [valueOfState_of_folded h0, valueOfState_lastPlayer hn (Or.inr ⟨rfl, rfl⟩) h1 h0]
        simp
      rw [fairValues_fold_iff hn hstack hvalue (by omega),
        fairStakes_fold_iff (Or.inl ⟨rfl, rfl⟩) h0 h1 (by omega)]
      omega
  | false =>
    cases h1 : s.playerFolded 1 with
    | true =>
      rw [h0, h1, if_pos rfl, if_neg (by decide)] at hcount
      have hvalue : valueOfState rankCardset g s 0 = some ((s.spent 1 : Int) : ℚ) ∧
          valueOfState rankCardset g s 1 = some (-(s.spent 1 : Int) : ℚ) :=
        ⟨valueOfState_lastPlayer hn (Or.inl ⟨rfl, rfl⟩) h0 h1, valueOfState_of_folded h1⟩
      rw [fairValues_fold_iff hn hstack hvalue (by omega),
        fairStakes_fold_iff (Or.inr ⟨rfl, rfl⟩) h1 h0 (by omega)]
      omega
    | false =>
      rw [h0, h1, if_neg (by decide)] at hcount
      have hunfolded : ∀ p < 2, s.playerFolded p = false := by
        intro p hp
        obtain rfl | rfl : p = 0 ∨ p = 1 := by omega
        · exact h0
        · exact h1
      constructor
      · intro h
        have hpos := spent_pos_of_fairValues hn hcount hunfolded h
        refine ⟨fun _ => ⟨hpos 0 (by omega), hpos 1 (by omega)⟩, fun p hp hf => ?_⟩
        rw [hunfolded p hp] at hf
        cases hf
      · rintro ⟨hin, -⟩
        exact fairValues_showdown hn hstack hcount (hin hcount)

/-- A short call of a raise, down to the showdown. -/
theorem fairValues_shortCall :
    FairValues id twoRoundGame (playFrom twoRoundGame [⟨.call, 0⟩, ⟨.call, 0⟩, ⟨.raise, 300⟩, ⟨.call, 0⟩]).2 ∧
      (playFrom twoRoundGame [⟨.call, 0⟩, ⟨.call, 0⟩, ⟨.raise, 300⟩, ⟨.call, 0⟩]).2.finished = true := by
  have run := (playFrom_run twoRoundGame [⟨.call, 0⟩, ⟨.call, 0⟩, ⟨.raise, 300⟩, ⟨.call, 0⟩]).weaken
    fun _ _ _ => StrictMove.move
  exact ⟨(@fairValues_iff id twoRoundFile twoRoundGame (Option.some_get _).symm (by decide +kernel) _ _ run).mpr
    ⟨fun _ => ⟨by decide +kernel, by decide +kernel⟩, by decide +kernel⟩, by decide +kernel⟩

def noBlindsFile : List GameLine := oneRoundFile .nolimit [200, 200] [0, 0] 1

def noBlindsGame : Game := (readGame noBlindsFile).get (by decide)

/-- A hand without blinds that is checked down has no value. -/
theorem checkedDown_no_value :
    ∃ g trace s, readGame noBlindsFile = some g ∧ g.numPlayers = 2 ∧ BettingRun g trace s ∧ s.finished = true ∧
      valueOfState id g s 0 = none ∧ ¬FairValues id g s := by
  have run := (playFrom_run noBlindsGame [⟨.call, 0⟩, ⟨.call, 0⟩]).weaken fun _ _ _ => StrictMove.move
  have hnone : valueOfState id noBlindsGame (playFrom noBlindsGame [⟨.call, 0⟩, ⟨.call, 0⟩]).2 0 = none := by
    decide +kernel
  refine ⟨noBlindsGame, _, _, (Option.some_get _).symm, by decide, run, by decide +kernel, hnone, ?_⟩
  rintro ⟨v, ⟨hv, -⟩, -⟩
  rw [hnone] at hv
  cases hv

end MasterAI
