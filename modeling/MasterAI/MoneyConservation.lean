import MasterAI.BettingRuns
import MasterAI.HandValue

namespace MasterAI

/-- What every reached state satisfies of folds and chips. -/
structure FoldInv (g : Game) (s : State) : Prop where
  folded_lt : numFolded g s < g.numPlayers
  unfinished : s.finished = false → numFolded g s + 1 < g.numPlayers
  spent_le_stack : ∀ p < g.numPlayers, s.spent p ≤ g.stack p

theorem countP_update_le {l : List Nat} (hl : l.Nodup) (p : Nat) (f : Nat → Bool) :
    l.countP (Function.update f p true) ≤ l.countP f + 1 := by
  induction l with
  | nil => simp
  | cons x l ih =>
    obtain ⟨hx, hl⟩ := List.nodup_cons.mp hl
    by_cases hxp : x = p
    · subst hxp
      have htail : l.countP (Function.update f x true) = l.countP f := by
        apply List.countP_congr
        intro y hy
        have hyx : y ≠ x := fun h => hx (h ▸ hy)
        simp [Function.update_of_ne hyx]
      simp only [List.countP_cons, htail, Function.update_self, if_true]
      omega
    · have := ih hl
      simp only [List.countP_cons, Function.update_of_ne hxp]
      omega

theorem FoldInv.init {g : Game} (wf : g.WellFormed) (handId : UInt32) (prior : State) :
    FoldInv g (initState g handId prior) := by
  have hnone : numFolded g (initState g handId prior) = 0 := by
    apply List.countP_eq_zero.mpr
    intro p hp
    simp [initState, List.mem_range.mp hp]
  have := wf.players_ge
  exact ⟨by omega, fun _ => by omega, fun p hp => by simpa [initState, hp] using wf.blind_le_stack p hp⟩

theorem FoldInv.step {g : Game} {s t : State} {a : Action} (move : Move g s a t) (h : FoldInv g s) :
    FoldInv g t := by
  obtain ⟨_, _, _, hvalid, hdo⟩ := move
  have hopen := h.unfinished (isValidAction_unfinished hvalid)
  obtain ⟨hp, -, u, hu, same, hend⟩ := doAction_cases hdo
  have hfolded : numFolded g t = numFolded g u := by simp only [numFolded, same.playerFolded]
  have hbet : numFolded g u ≤ numFolded g s + 1 ∧ ∀ p < g.numPlayers, u.spent p ≤ g.stack p := by
    rcases bet_cases hu with ⟨-, rfl⟩ | ⟨-, rfl⟩ | ⟨-, -, -, hsz, rfl⟩ | ⟨-, -, rfl⟩
    · exact ⟨countP_update_le List.nodup_range _ _, h.spent_le_stack⟩
    · exact ⟨Nat.le_succ _, update_le h.spent_le_stack (by unfold callSize; split <;> omega)⟩
    · exact ⟨Nat.le_succ _, update_le h.spent_le_stack hsz⟩
    · exact ⟨Nat.le_succ _, update_le h.spent_le_stack (by unfold limitRaiseTo; split <;> omega)⟩
  refine ⟨by omega, fun hf => ?_, by rw [same.spent]; exact hbet.2⟩
  rcases hend with ⟨hlt, -⟩ | ⟨-, -, hfin⟩ | ⟨hlt, -⟩ | ⟨hlt, -⟩ | ⟨hlt, -⟩
  · omega
  · simp [hfin] at hf
  · omega
  · omega
  · omega

theorem foldInv_of_run {g : Game} (wf : g.WellFormed) {trace : List (Transition State Action)} {s : State}
    (run : BettingRun g trace s) : FoldInv g s := by
  refine run.always ?_ fun _ _ _ move inv => inv.step move
  rintro s ⟨handId, prior, rfl⟩
  exact .init wf handId prior

/-- Everyone in the showdown has chips in, and no folded player has more in than all of them. -/
def PotsCovered (g : Game) (s : State) : Prop :=
  (∀ p < g.numPlayers, s.playerFolded p = false → 0 < s.spent p) ∧
    ∀ p < g.numPlayers, s.playerFolded p = true → 0 ≤ s.spent p ∧
      ∃ q < g.numPlayers, s.playerFolded q = false ∧ s.spent p ≤ s.spent q

instance (g : Game) (s : State) : Decidable (PotsCovered g s) :=
  inferInstanceAs (Decidable (_ ∧ _))

section

variable (rankCardset : Nat → Nat) (g : Game) (s : State)

/-- Every player has a value, and the values add up to nothing. -/
def Conserved : Prop :=
  ∃ value : Nat → ℚ, (∀ p < g.numPlayers, valueOfState rankCardset g s p = some (value p)) ∧
    ((List.range g.numPlayers).map value).sum = 0

def showdownPot : List Stake := (showdownPlayers g s).map (showdownStake rankCardset g s)

theorem showdownStake_claim (p : Nat) :
    0 ≤ (showdownStake rankCardset g s p).2 ↔ s.playerFolded p = false := by
  unfold showdownStake
  cases s.playerFolded p <;> simp

variable {rankCardset g s}

theorem mem_showdownPlayers {p : Nat} : p ∈ showdownPlayers g s ↔ p < g.numPlayers ∧ s.spent p ≠ 0 := by
  simp [showdownPlayers]

theorem valueOfState_of_folded {p : Nat} (h : s.playerFolded p = true) :
    valueOfState rankCardset g s p = some (-(s.spent p : ℚ)) := by
  simp [valueOfState, h]

theorem valueOfState_of_showdown {p : Nat} (h : s.playerFolded p = false)
    (hn : numFolded g s + 1 ≠ g.numPlayers) :
    valueOfState rankCardset g s p =
      if 1 < (showdownPlayers g s).length then
        payPots (showdownPlayers g s).length (showdownPot rankCardset g s) ((showdownPlayers g s).idxOf p) 0
      else none := by
  simp [valueOfState, h, hn, showdownPot]

theorem payPots_defined {fuel i : Nat} {pot : List Stake} {value result : ℚ}
    (h : payPots fuel pot i value = some result) : i < pot.length ∧ ∀ e ∈ pot, 0 < e.1 := by
  cases fuel with
  | zero => simp [payPots] at h
  | succ fuel =>
    simp only [payPots] at h
    split at h
    · simp at h
    next e he =>
      obtain ⟨hi, -⟩ := List.getElem?_eq_some_iff.mp he
      split at h
      next hall => exact ⟨hi, by simpa using hall⟩
      next => simp at h

theorem unfolded_count (g : Game) (s : State) :
    (List.range g.numPlayers).countP (fun p => !s.playerFolded p) + numFolded g s = g.numPlayers := by
  have := List.length_eq_countP_add_countP s.playerFolded (l := List.range g.numPlayers)
  simp only [List.length_range, Bool.not_eq_true] at this
  rw [numFolded]
  have hcongr : (List.range g.numPlayers).countP (fun p => !s.playerFolded p) =
      (List.range g.numPlayers).countP (fun p => decide (s.playerFolded p = false)) := by
    apply List.countP_congr
    intro p _
    simp
  omega

/-- When everyone but one player folded, that player wins what the others lose. -/
theorem conserved_of_lastPlayer (hn : numFolded g s + 1 = g.numPlayers) : Conserved rankCardset g s := by
  have hone := unfolded_count g s
  rw [List.countP_eq_length_filter] at hone
  obtain ⟨w, hw⟩ := List.length_eq_one_iff.mp
    (show ((List.range g.numPlayers).filter fun p => !s.playerFolded p).length = 1 by omega)
  have hmem : ∀ p, p < g.numPlayers ∧ s.playerFolded p = false ↔ p = w := by
    intro p
    have : p ∈ (List.range g.numPlayers).filter (fun p => !s.playerFolded p) ↔ p = w := by simp [hw]
    simpa [List.mem_filter] using this
  have hlast := (hmem w).mpr rfl
  have hothers : (List.range g.numPlayers).filter (fun p => decide (s.playerFolded p = true)) =
      (List.range g.numPlayers).filter (· ≠ w) := by
    apply List.filter_congr
    intro p hp
    have := hmem p
    have hlt := List.mem_range.mp hp
    cases hf : s.playerFolded p <;> simp_all
  refine ⟨fun p => if s.playerFolded p = true then -s.spent p else
    (((List.range g.numPlayers).filter (· ≠ w)).map fun p => (s.spent p : ℚ)).sum, ?_, ?_⟩
  · intro p hp
    cases hf : s.playerFolded p with
    | true => simp only [valueOfState_of_folded hf, hf, if_true]
    | false =>
      obtain rfl := (hmem p).mp ⟨hp, hf⟩
      simp [valueOfState, hf, hn]
  · rw [List.sum_map_ite, hothers]
    have hrest : (List.range g.numPlayers).filter (fun p => decide ¬s.playerFolded p = true) = [w] := by
      rw [← hw]
      apply List.filter_congr
      intro p _
      simp
    rw [hrest, List.map_singleton, List.sum_singleton, ← List.sum_map_add]
    simp

/-- A defined showdown has no player without chips and no negative stake. -/
theorem showdown_positive (hn : numFolded g s + 1 < g.numPlayers) {value : Nat → ℚ}
    (hvalue : ∀ p < g.numPlayers, valueOfState rankCardset g s p = some (value p)) :
    (∀ e ∈ showdownPot rankCardset g s, 0 < e.1) ∧
      ∀ p < g.numPlayers, s.playerFolded p = false → p ∈ showdownPlayers g s := by
  have hdefined : ∀ p < g.numPlayers, s.playerFolded p = false →
      (∀ e ∈ showdownPot rankCardset g s, 0 < e.1) ∧ p ∈ showdownPlayers g s := by
    intro p hp hf
    have h := hvalue p hp
    rw [valueOfState_of_showdown hf (by omega)] at h
    split at h
    · obtain ⟨hi, hpos⟩ := payPots_defined h
      exact ⟨hpos, List.idxOf_lt_length_iff.mp (by simpa [showdownPot] using hi)⟩
    · simp at h
  have hcount := unfolded_count g s
  obtain ⟨q, hq, hqf⟩ := List.countP_pos_iff.mp
    (show 0 < (List.range g.numPlayers).countP fun p => !s.playerFolded p by omega)
  exact ⟨(hdefined q (List.mem_range.mp hq) (by simpa using hqf)).1, fun p hp hf => (hdefined p hp hf).2⟩

theorem showdownPlayers_length (hn : numFolded g s + 1 < g.numPlayers)
    (hpos : ∀ p < g.numPlayers, s.playerFolded p = false → 0 < s.spent p) :
    1 < (showdownPlayers g s).length := by
  have hcount := unfolded_count g s
  have hle : (List.range g.numPlayers).countP (fun p => !s.playerFolded p) ≤
      (List.range g.numPlayers).countP fun p => decide (s.spent p ≠ 0) := by
    apply List.countP_mono_left
    intro p hp hf
    have := hpos p (List.mem_range.mp hp) (by simpa using hf)
    simp only [ne_eq, decide_eq_true_eq]
    omega
  rw [showdownPlayers, ← List.countP_eq_length_filter]
  omega

theorem showdownPot_claims (hpos : ∀ p < g.numPlayers, s.playerFolded p = false → 0 < s.spent p) :
    (showdownPot rankCardset g s).filter (fun e => 0 ≤ e.2) =
      ((List.range g.numPlayers).filter fun p => ¬s.playerFolded p = true).map
        (showdownStake rankCardset g s) := by
  rw [showdownPot, List.filter_map, showdownPlayers, List.filter_filter]
  congr 1
  apply List.filter_congr
  intro p hp
  have hclaim := showdownStake_claim rankCardset g s p
  have := hpos p (List.mem_range.mp hp)
  cases hf : s.playerFolded p with
  | true => simp [hclaim, hf]
  | false => simp [hclaim, hf, (this hf).ne']

theorem showdownPot_lost :
    (((showdownPot rankCardset g s).filter fun e => e.2 < 0).map fun e => (e.1 : ℚ)).sum =
      (((List.range g.numPlayers).filter fun p => s.playerFolded p = true).map
        fun p => (s.spent p : ℚ)).sum := by
  have hlost : ((showdownPot rankCardset g s).filter fun e => e.2 < 0).map (fun e => (e.1 : ℚ)) =
      (((List.range g.numPlayers).filter fun p => s.playerFolded p = true).filter
        fun p => s.spent p ≠ 0).map fun p => (s.spent p : ℚ) := by
    rw [showdownPot, List.filter_map, List.map_map, showdownPlayers, List.filter_filter, List.filter_filter]
    congr 1
    apply List.filter_congr
    intro p _
    have hclaim := showdownStake_claim rankCardset g s p
    rw [← not_iff_not, not_le] at hclaim
    simp [hclaim, Bool.and_comm]
  rw [hlost, ← List.sum_map_filter_add_sum_map_filter_not (fun p => s.spent p ≠ 0) _
    ((List.range g.numPlayers).filter fun p => s.playerFolded p = true)]
  simp only [left_eq_add]
  apply List.sum_eq_zero
  intro x hx
  obtain ⟨p, hp, rfl⟩ := List.mem_map.mp hx
  simpa using (List.mem_filter.mp hp).2

/-- The value of a player in a showdown is the share of the abstract division of its pot. -/
theorem showdown_value (hcap : ∀ e ∈ showdownPot rankCardset g s, e.1 ≤ int32Max)
    (hn : numFolded g s + 1 < g.numPlayers) (hpos : ∀ e ∈ showdownPot rankCardset g s, 0 < e.1)
    (hin : ∀ p < g.numPlayers, s.playerFolded p = false → 0 < s.spent p) {p : Nat} (hp : p < g.numPlayers)
    (hf : s.playerFolded p = false) :
    showdownStake rankCardset g s p ∈ showdownPot rankCardset g s ∧
      valueOfState rankCardset g s p = some (SidePot.share int32Max (showdownPlayers g s).length
        (showdownPot rankCardset g s) (showdownStake rankCardset g s p)) := by
  have hmem := mem_showdownPlayers.mpr ⟨hp, (hin p hp hf).ne'⟩
  have hentry : (showdownPot rankCardset g s)[(showdownPlayers g s).idxOf p]? =
      some (showdownStake rankCardset g s p) := by
    simp [showdownPot, List.getElem?_idxOf hmem]
  refine ⟨List.mem_of_getElem? hentry, ?_⟩
  rw [valueOfState_of_showdown hf (by omega), if_pos (showdownPlayers_length hn hin),
    payPots_eq hentry (by simp [showdownPot]) hpos hcap, zero_add]

/-- The values of a showdown in terms of the abstract division of its pot. -/
theorem showdown_sum (hcap : ∀ e ∈ showdownPot rankCardset g s, e.1 ≤ int32Max)
    (hn : numFolded g s + 1 < g.numPlayers) (hpos : ∀ e ∈ showdownPot rankCardset g s, 0 < e.1)
    (hin : ∀ p < g.numPlayers, s.playerFolded p = false → 0 < s.spent p) :
    ∃ value : Nat → ℚ, (∀ p < g.numPlayers, valueOfState rankCardset g s p = some (value p)) ∧
      ((List.range g.numPlayers).map value).sum =
        SidePot.balance int32Max (showdownPlayers g s).length (showdownPot rankCardset g s) := by
  refine ⟨fun p => if s.playerFolded p = true then -s.spent p else SidePot.share int32Max
    (showdownPlayers g s).length (showdownPot rankCardset g s) (showdownStake rankCardset g s p), ?_, ?_⟩
  · intro p hp
    cases hf : s.playerFolded p with
    | true => simp only [valueOfState_of_folded hf, hf, if_true]
    | false =>
      rw [(showdown_value hcap hn hpos hin hp hf).2]
      simp [hf]
  · rw [List.sum_map_ite, SidePot.balance, showdownPot_claims hin, showdownPot_lost, List.map_map,
      sub_eq_neg_add, Function.comp_def]
    congr 1
    rw [eq_neg_iff_add_eq_zero, ← List.sum_map_add]
    simp

theorem covered_iff (hin : ∀ p < g.numPlayers, s.playerFolded p = false → 0 < s.spent p)
    (hpos : ∀ e ∈ showdownPot rankCardset g s, 0 < e.1) (hn : numFolded g s + 1 < g.numPlayers) :
    SidePot.Covered (showdownPot rankCardset g s) ↔ PotsCovered g s := by
  have hstake : ∀ p < g.numPlayers, s.spent p ≠ 0 →
      showdownStake rankCardset g s p ∈ showdownPot rankCardset g s :=
    fun p hp hne => List.mem_map.mpr ⟨p, mem_showdownPlayers.mpr ⟨hp, hne⟩, rfl⟩
  constructor
  · refine fun h => ⟨hin, fun p hp hf => ?_⟩
    by_cases hzero : s.spent p = 0
    · have hcount := unfolded_count g s
      obtain ⟨q, hq, hqf⟩ := List.countP_pos_iff.mp
        (show 0 < (List.range g.numPlayers).countP fun p => !s.playerFolded p by omega)
      have hqpos := hin q (List.mem_range.mp hq) (by simpa using hqf)
      exact ⟨hzero.ge, q, List.mem_range.mp hq, by simpa using hqf, by omega⟩
    · have hmem := hstake p hp hzero
      have hneg : (showdownStake rankCardset g s p).2 < 0 := by
        by_contra hge
        simp [(showdownStake_claim rankCardset g s p).mp (not_lt.mp hge)] at hf
      obtain ⟨c, hc, h0, hle⟩ := h _ hmem hneg
      obtain ⟨q, hq, rfl⟩ := List.mem_map.mp hc
      exact ⟨(hpos _ hmem).le, q, (mem_showdownPlayers.mp hq).1, (showdownStake_claim rankCardset g s q).mp h0, hle⟩
  · rintro ⟨-, hcover⟩ e he hneg
    obtain ⟨p, hp, rfl⟩ := List.mem_map.mp he
    have hf : s.playerFolded p = true := by
      by_contra hf
      have := (showdownStake_claim rankCardset g s p).mpr (Bool.eq_false_iff.mpr hf)
      omega
    obtain ⟨-, q, hq, hqf, hle⟩ := hcover p (mem_showdownPlayers.mp hp).1 hf
    exact ⟨_, hstake q hq (hin q hq hqf).ne', (showdownStake_claim rankCardset g s q).mpr hqf, hle⟩

theorem conserved_iff_of_showdown (hstack : ∀ p < g.numPlayers, s.spent p ≤ int32Max)
    (hn : numFolded g s + 1 < g.numPlayers) : Conserved rankCardset g s ↔ PotsCovered g s := by
  have henough : (showdownPot rankCardset g s).length ≤ (showdownPlayers g s).length := by simp [showdownPot]
  have hcap : ∀ e ∈ showdownPot rankCardset g s, e.1 ≤ int32Max := by
    intro e he
    obtain ⟨p, hp, rfl⟩ := List.mem_map.mp he
    exact hstack p (mem_showdownPlayers.mp hp).1
  constructor
  · rintro ⟨value, hvalue, hsum⟩
    obtain ⟨hpos, hmem⟩ := showdown_positive hn hvalue
    have hin : ∀ p < g.numPlayers, s.playerFolded p = false → 0 < s.spent p :=
      fun p hp hf => hpos _ (List.mem_map.mpr ⟨p, hmem p hp hf, rfl⟩)
    obtain ⟨value', hvalue', hsum'⟩ := showdown_sum hcap hn hpos hin
    have hsame : (List.range g.numPlayers).map value' = (List.range g.numPlayers).map value := by
      apply List.map_congr_left
      intro p hp
      have hlt := List.mem_range.mp hp
      exact Option.some.inj ((hvalue' p hlt).symm.trans (hvalue p hlt))
    rw [hsame, hsum] at hsum'
    exact (covered_iff hin hpos hn).mp ((SidePot.balance_eq_zero_iff henough hpos hcap).mp hsum'.symm)
  · intro hcover
    have hpos : ∀ e ∈ showdownPot rankCardset g s, 0 < e.1 := by
      intro e he
      obtain ⟨p, hp, rfl⟩ := List.mem_map.mp he
      obtain ⟨hlt, hne⟩ := mem_showdownPlayers.mp hp
      change 0 < s.spent p
      cases hf : s.playerFolded p with
      | true =>
        have := (hcover.2 p hlt hf).1
        omega
      | false => exact hcover.1 p hlt hf
    obtain ⟨value, hvalue, hsum⟩ := showdown_sum hcap hn hpos hcover.1
    refine ⟨value, hvalue, ?_⟩
    rw [hsum]
    exact (SidePot.balance_eq_zero_iff henough hpos hcap).mpr ((covered_iff hcover.1 hpos hn).mpr hcover)

end

/-- Exactly when the values of a reached state conserve the chips. -/
theorem conserved_iff (rankCardset : Nat → Nat) {lines : List GameLine} {g : Game}
    (hread : readGame lines = some g) {trace : List (Transition State Action)} {s : State}
    (run : BettingRun g trace s) :
    Conserved rankCardset g s ↔ numFolded g s + 1 = g.numPlayers ∨ PotsCovered g s := by
  have wf := readGame_wellFormed hread
  have inv := foldInv_of_run wf run
  have hlt := inv.folded_lt
  have hstack : ∀ p < g.numPlayers, s.spent p ≤ int32Max :=
    fun p hp => (inv.spent_le_stack p hp).trans (wf.stack_fits p).2
  by_cases hn : numFolded g s + 1 = g.numPlayers
  · simp only [hn, true_or, iff_true]
    exact conserved_of_lastPlayer hn
  · rw [conserved_iff_of_showdown hstack (by omega)]
    simp [hn]

def freeFoldFile : List GameLine := oneRoundFile .nolimit [200, 50, 60] [100, 0, 0] 2

def freeFoldGame : Game := (readGame freeFoldFile).get (by decide)

theorem readGame_freeFoldFile : readGame freeFoldFile = some freeFoldGame := (Option.some_get _).symm

theorem conserved_iff_side_pots :
    ∃ trace s, BettingRun freeFoldGame trace s ∧ s.finished = true ∧ numFolded freeFoldGame s = 0 ∧
      Conserved id freeFoldGame s := by
  have run := (playFrom_run freeFoldGame [⟨.call, 0⟩, ⟨.call, 0⟩, ⟨.call, 0⟩]).weaken
    fun _ _ _ => StrictMove.move
  exact ⟨_, _, run, by decide +kernel, by decide +kernel,
    (conserved_iff id readGame_freeFoldFile run).mpr (Or.inr (by decide +kernel))⟩

/-- A free fold behind two short all-in calls loses the forty chips that nobody matched. -/
theorem free_fold_loses_chips :
    ∃ g trace s, readGame freeFoldFile = some g ∧ (∀ p < g.numPlayers, 0 ≤ g.blind p) ∧
      BettingRun g trace s ∧ s.finished = true ∧ valueOfState id g s 0 = some (-100) ∧
      valueOfState id g s 1 = some 100 ∧ valueOfState id g s 2 = some (-40) ∧ ¬Conserved id g s := by
  have run := (playFrom_run freeFoldGame [⟨.call, 0⟩, ⟨.call, 0⟩, ⟨.fold, 0⟩]).weaken
    fun _ _ _ => StrictMove.move
  refine ⟨freeFoldGame, _, _, readGame_freeFoldFile, by change ∀ p < 3, _; decide, run, by decide +kernel, ?_⟩
  generalize hs : (playFrom freeFoldGame [⟨.call, 0⟩, ⟨.call, 0⟩, ⟨.fold, 0⟩]).2 = s
  have h0 : valueOfState id freeFoldGame s 0 = some (-100) := by rw [← hs]; decide +kernel
  have h1 : valueOfState id freeFoldGame s 1 = some 100 := by rw [← hs]; decide +kernel
  have h2 : valueOfState id freeFoldGame s 2 = some (-40) := by rw [← hs]; decide +kernel
  refine ⟨h0, h1, h2, ?_⟩
  rintro ⟨value, hvalue, hsum⟩
  have hlist : List.range freeFoldGame.numPlayers = [0, 1, 2] := by decide
  have hv0 := Option.some.inj ((hvalue 0 (by decide)).symm.trans h0)
  have hv1 := Option.some.inj ((hvalue 1 (by decide)).symm.trans h1)
  have hv2 := Option.some.inj ((hvalue 2 (by decide)).symm.trans h2)
  rw [hlist] at hsum
  norm_num [hv0, hv1, hv2] at hsum

end MasterAI
