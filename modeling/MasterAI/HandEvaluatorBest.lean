import Mathlib.Data.Int.ConditionallyCompleteOrder
import Mathlib.Data.Set.Function
import Mathlib.Order.Interval.Set.Basic
import MasterAI.HandEvaluatorPoker

namespace MasterAI

section

variable {α β : Type*} {rank suit : α → Int} {rank' suit' : β → Int} {f : α → β} {h cards other : List α} {v : HandRank}

theorem oneSuit_iff : (∃ s, ∀ c ∈ h, suit c = s) ↔ ∀ c ∈ h, ∀ d ∈ h, suit c = suit d := by
  constructor
  · rintro ⟨s, hs⟩ c hc d hd
    rw [hs c hc, hs d hd]
  · intro hall
    cases h with
    | nil => exact ⟨0, by simp⟩
    | cons d h => exact ⟨suit d, fun c hc => hall c hc d (by simp)⟩

/-- Which hand some cards make only depends on their ranks and on which of them have the same suit. -/
theorem makes_map_iff (hrank : ∀ c ∈ h, rank' (f c) = rank c)
    (hsuit : ∀ c ∈ h, ∀ d ∈ h, suit' (f c) = suit' (f d) ↔ suit c = suit d) :
    Makes rank' suit' (h.map f) v ↔ Makes rank suit h v := by
  have hranks : (h.map f).map rank' = h.map rank := by
    rw [List.map_map]
    exact List.map_congr_left hrank
  have hone : (∃ s, ∀ c ∈ h.map f, suit' c = s) ↔ ∃ s, ∀ c ∈ h, suit c = s := by
    rw [oneSuit_iff, oneSuit_iff, List.forall_mem_map]
    refine forall₂_congr fun c hc => ?_
    rw [List.forall_mem_map]
    exact forall₂_congr fun d hd => hsuit c hc d hd
  unfold Makes
  rw [hranks, hone]

/-- Every selection from some changed cards is a changed selection. -/
theorem exists_map_of_subset {h : List β} (hh : h ⊆ cards.map f) : ∃ g : List α, g ⊆ cards ∧ h = g.map f := by
  induction h with
  | nil => exact ⟨[], by simp, rfl⟩
  | cons b h ih =>
    have hb : b ∈ cards.map f := hh List.mem_cons_self
    obtain ⟨a, ha, rfl⟩ := List.mem_map.mp hb
    obtain ⟨g, hg, rfl⟩ := ih fun c hc => hh (List.mem_cons_of_mem _ hc)
    exact ⟨a :: g, List.cons_subset.mpr ⟨ha, hg⟩, rfl⟩

theorem exists_makes_map_iff (hinj : ∀ c ∈ cards, ∀ d ∈ cards, f c = f d → c = d)
    (hrank : ∀ c ∈ cards, rank' (f c) = rank c)
    (hsuit : ∀ c ∈ cards, ∀ d ∈ cards, suit' (f c) = suit' (f d) ↔ suit c = suit d) :
    (∃ h : List β, h.Nodup ∧ h ⊆ cards.map f ∧ Makes rank' suit' h v) ↔
      ∃ h : List α, h.Nodup ∧ h ⊆ cards ∧ Makes rank suit h v := by
  constructor
  · rintro ⟨h, hnodup, hh, hmakes⟩
    obtain ⟨g, hg, rfl⟩ := exists_map_of_subset hh
    refine ⟨g, hnodup.of_map f, hg, ?_⟩
    exact (makes_map_iff (fun c hc => hrank c (hg hc)) fun c hc d hd => hsuit c (hg hc) d (hg hd)).mp hmakes
  · rintro ⟨h, hnodup, hh, hmakes⟩
    refine ⟨h.map f, hnodup.map_on fun c hc d hd => hinj c (hh hc) d (hh hd), List.map_subset f hh, ?_⟩
    exact (makes_map_iff (fun c hc => hrank c (hh hc)) fun c hc d hd => hsuit c (hh hc) d (hh hd)).mpr hmakes

theorem bestHand_iff_exists : BestHand rank suit cards v ↔
    (∃ h : List α, h.Nodup ∧ h ⊆ cards ∧ Makes rank suit h v) ∧
      ∀ w, (∃ h : List α, h.Nodup ∧ h ⊆ cards ∧ Makes rank suit h w) → ¬w.Beats v := by
  refine and_congr_right fun _ => ⟨?_, ?_⟩
  · rintro hbest w ⟨h, hnodup, hh, hmakes⟩
    exact hbest h w hnodup hh hmakes
  · exact fun hbest h w hnodup hh hmakes => hbest w ⟨h, hnodup, hh, hmakes⟩

/-- The best hand is the same for cards that differ in how they and their suits are named. -/
theorem bestHand_map_iff (hinj : ∀ c ∈ cards, ∀ d ∈ cards, f c = f d → c = d)
    (hrank : ∀ c ∈ cards, rank' (f c) = rank c)
    (hsuit : ∀ c ∈ cards, ∀ d ∈ cards, suit' (f c) = suit' (f d) ↔ suit c = suit d) :
    BestHand rank' suit' (cards.map f) v ↔ BestHand rank suit cards v := by
  simp only [bestHand_iff_exists, exists_makes_map_iff hinj hrank hsuit]

theorem bestHand_perm (h : cards.Perm other) : BestHand rank suit cards v ↔ BestHand rank suit other v := by
  have hsubset : ∀ g : List α, g ⊆ cards ↔ g ⊆ other := fun g =>
    ⟨fun hg c hc => h.mem_iff.mp (hg hc), fun hg c hc => h.mem_iff.mpr (hg hc)⟩
  unfold BestHand
  simp only [hsubset]

end

namespace HoldemHandEvaluator

variable {cards other : List Int} {v w : HandRank} {σ : Int → Int}

theorem Deal.bestHand_iff (hd : Deal cards) : BestHand rank suit cards v ↔ Value cards v := by
  rw [bestHand_iff_exists]
  simp only [← shows_iff hd.nodup]
  constructor
  · rintro ⟨hshows, hbest⟩
    refine ⟨hshows, fun w hw => ?_⟩
    by_contra hlt
    exact hbest w hw ((code_lt_iff (hd.isRanked hshows) (hd.isRanked hw)).mp (by omega))
  · rintro ⟨hshows, hgreatest⟩
    refine ⟨hshows, fun w hw hbeats => ?_⟩
    have hlt := (code_lt_iff (hd.isRanked hshows) (hd.isRanked hw)).mpr hbeats
    have hle := hgreatest w hw
    omega

/-- `Evaluate` returns the value of the best hand. -/
theorem Deal.evaluate_bestHand (hd : Deal cards) (h : BestHand rank suit cards v) : evaluate cards = code v := by
  obtain ⟨w, hw, heval⟩ := hd.evaluate_value
  have hv := hd.bestHand_iff.mp h
  rw [heval]
  exact le_antisymm (hv.greatest w hw.shows) (hw.greatest v hv.shows)

theorem Deal.bestHand_exists (hd : Deal cards) : ∃ v, BestHand rank suit cards v := by
  obtain ⟨v, hv, -⟩ := hd.evaluate_value
  exact ⟨v, hd.bestHand_iff.mpr hv⟩

theorem Deal.isRanked_bestHand (hd : Deal cards) (h : BestHand rank suit cards v) : IsRanked v :=
  hd.isRanked (hd.bestHand_iff.mp h).shows

/-- There is one best hand. -/
theorem Deal.bestHand_unique (hd : Deal cards) : ∃! v, BestHand rank suit cards v := by
  obtain ⟨v, hv⟩ := hd.bestHand_exists
  refine ⟨v, hv, fun w hw => ?_⟩
  refine code_injective (hd.isRanked_bestHand hw) (hd.isRanked_bestHand hv) ?_
  rw [← hd.evaluate_bestHand hw, ← hd.evaluate_bestHand hv]

theorem Deal.perm (hd : Deal cards) (h : other.Perm cards) : Deal other where
  nodup := h.nodup_iff.mpr hd.nodup
  card c hc := hd.card c (h.mem_iff.mp hc)
  five := by rw [h.length_eq]; exact hd.five
  seven := by rw [h.length_eq]; exact hd.seven

/-- The order of the cards does not matter. -/
theorem Deal.evaluate_perm (hd : Deal cards) (h : other.Perm cards) : evaluate other = evaluate cards := by
  obtain ⟨v, hv⟩ := hd.bestHand_exists
  rw [hd.evaluate_bestHand hv, (hd.perm h).evaluate_bestHand ((bestHand_perm h).mpr hv)]

/-- A card with another suit. -/
def exchangeSuit (σ : Int → Int) (card : Int) : Int := makeCard (rank card) (σ (suit card))

theorem suit_range {c : Int} : suit c ∈ Set.Ico (0 : Int) 4 := by
  unfold suit numSuits
  exact Set.mem_Ico.mpr (by omega)

theorem makeCard_card {c s : Int} (hc : 0 ≤ c ∧ c < 52) (hs : s ∈ Set.Ico (0 : Int) 4) :
    rank (makeCard (rank c) s) = rank c ∧ suit (makeCard (rank c) s) = s ∧ 0 ≤ makeCard (rank c) s ∧
      makeCard (rank c) s < 52 := by
  obtain ⟨hlow, hhigh⟩ := Set.mem_Ico.mp hs
  unfold makeCard rank suit numSuits
  omega

theorem exchangeSuit_card {c : Int} (hσ : Set.BijOn σ (Set.Ico 0 4) (Set.Ico 0 4)) (hc : 0 ≤ c ∧ c < 52) :
    rank (exchangeSuit σ c) = rank c ∧ suit (exchangeSuit σ c) = σ (suit c) ∧ 0 ≤ exchangeSuit σ c ∧
      exchangeSuit σ c < 52 :=
  makeCard_card hc (hσ.mapsTo suit_range)

theorem exchangeSuit_injective (hσ : Set.BijOn σ (Set.Ico 0 4) (Set.Ico 0 4)) {c d : Int} (hc : 0 ≤ c ∧ c < 52)
    (hd : 0 ≤ d ∧ d < 52) (h : exchangeSuit σ c = exchangeSuit σ d) : c = d := by
  obtain ⟨hcrank, hcsuit, -⟩ := exchangeSuit_card hσ hc
  obtain ⟨hdrank, hdsuit, -⟩ := exchangeSuit_card hσ hd
  have hrank : rank c = rank d := by rw [← hcrank, ← hdrank, h]
  have hsuit : suit c = suit d := hσ.injOn suit_range suit_range (by rw [← hcsuit, ← hdsuit, h])
  unfold rank suit numSuits at *
  omega

theorem Deal.exchangeSuit (hd : Deal cards) (hσ : Set.BijOn σ (Set.Ico 0 4) (Set.Ico 0 4)) :
    Deal (cards.map (exchangeSuit σ)) where
  nodup := hd.nodup.map_on fun c hc d hd' => exchangeSuit_injective hσ (hd.card c hc) (hd.card d hd')
  card := List.forall_mem_map.mpr fun c hc => (exchangeSuit_card hσ (hd.card c hc)).2.2
  five := by rw [List.length_map]; exact hd.five
  seven := by rw [List.length_map]; exact hd.seven

/-- The names of the suits do not matter. -/
theorem Deal.evaluate_exchangeSuit (hd : Deal cards) (hσ : Set.BijOn σ (Set.Ico 0 4) (Set.Ico 0 4)) :
    evaluate (cards.map (HoldemHandEvaluator.exchangeSuit σ)) = evaluate cards := by
  have hbest : ∀ v, BestHand rank suit (cards.map (HoldemHandEvaluator.exchangeSuit σ)) v ↔
      BestHand rank suit cards v := fun v =>
    bestHand_map_iff (fun c hc d hd' => exchangeSuit_injective hσ (hd.card c hc) (hd.card d hd'))
      (fun c hc => (exchangeSuit_card hσ (hd.card c hc)).1) fun c hc d hd' => by
        rw [(exchangeSuit_card hσ (hd.card c hc)).2.1, (exchangeSuit_card hσ (hd.card d hd')).2.1]
        exact ⟨fun h => hσ.injOn suit_range suit_range h, fun h => by rw [h]⟩
  obtain ⟨v, hv⟩ := hd.bestHand_exists
  rw [hd.evaluate_bestHand hv, (hd.exchangeSuit hσ).evaluate_bestHand ((hbest v).mpr hv)]

theorem Deal.evaluate_lt_iff (hd : Deal cards) (ho : Deal other) (hv : BestHand rank suit cards v)
    (hw : BestHand rank suit other w) : evaluate other < evaluate cards ↔ v.Beats w := by
  rw [hd.evaluate_bestHand hv, ho.evaluate_bestHand hw]
  exact code_lt_iff (ho.isRanked_bestHand hw) (hd.isRanked_bestHand hv)

theorem Deal.evaluate_eq_iff (hd : Deal cards) (ho : Deal other) (hv : BestHand rank suit cards v)
    (hw : BestHand rank suit other w) : evaluate cards = evaluate other ↔ v = w := by
  rw [hd.evaluate_bestHand hv, ho.evaluate_bestHand hw]
  exact ⟨code_injective (hd.isRanked_bestHand hv) (ho.isRanked_bestHand hw), fun h => by rw [h]⟩

/-- `Evaluate` orders cards as their best hands are ordered, whatever the order of the cards and the names
of the suits. -/
theorem evaluate_orders_hands {A B : List Int} (hA : Deal A) (hB : Deal B) :
    (∀ A', A'.Perm A → evaluate A' = evaluate A) ∧
    (∀ σ : Int → Int, Set.BijOn σ (Set.Ico 0 4) (Set.Ico 0 4) → evaluate (A.map (exchangeSuit σ)) = evaluate A) ∧
    ∃ v w, (∀ v', BestHand rank suit A v' ↔ v' = v) ∧ (∀ w', BestHand rank suit B w' ↔ w' = w) ∧
      (evaluate A > evaluate B ↔ v.Beats w) ∧ (evaluate A = evaluate B ↔ v = w) := by
  obtain ⟨v, hv, hvonly⟩ := hA.bestHand_unique
  obtain ⟨w, hw, hwonly⟩ := hB.bestHand_unique
  refine ⟨fun A' h => hA.evaluate_perm h, fun σ hσ => hA.evaluate_exchangeSuit hσ, v, w, ?_, ?_,
    hA.evaluate_lt_iff hB hv hw, hA.evaluate_eq_iff hB hv hw⟩
  · exact fun v' => ⟨hvonly v', fun h => h ▸ hv⟩
  · exact fun w' => ⟨hwonly w', fun h => h ▸ hw⟩

/-- A straight to the six, with both its aces left over, beats a straight whose ace is low. -/
theorem evaluate_orders_straights :
    Deal [16, 13, 8, 5, 0, 50, 51] ∧ Deal [3, 48, 13, 9, 0, 4, 42] ∧
    evaluate [50, 16, 13, 51, 8, 5, 0] = evaluate [16, 13, 8, 5, 0, 50, 51] ∧
    evaluate ([16, 13, 8, 5, 0, 50, 51].map (exchangeSuit fun s => 3 - s)) = evaluate [16, 13, 8, 5, 0, 50, 51] ∧
    ∃ v w, BestHand rank suit [16, 13, 8, 5, 0, 50, 51] v ∧ BestHand rank suit [3, 48, 13, 9, 0, 4, 42] w ∧
      v.Beats w ∧ v ≠ w := by
  have hA : Deal [16, 13, 8, 5, 0, 50, 51] := ⟨by decide, by decide, by decide, by decide⟩
  have hB : Deal [3, 48, 13, 9, 0, 4, 42] := ⟨by decide, by decide, by decide, by decide⟩
  have hσ : Set.BijOn (fun s : Int => 3 - s) (Set.Ico 0 4) (Set.Ico 0 4) := by
    refine ⟨fun s hs => ?_, fun s _ t _ h => ?_, fun s hs => ⟨3 - s, ?_, ?_⟩⟩
    · simp only [Set.mem_Ico] at *
      omega
    · simp only at h
      omega
    · simp only [Set.mem_Ico] at *
      omega
    · simp only
      omega
  obtain ⟨hperm, hsuits, v, w, hv, hw, hbeats, hties⟩ := evaluate_orders_hands hA hB
  have hmore : evaluate [16, 13, 8, 5, 0, 50, 51] > evaluate [3, 48, 13, 9, 0, 4, 42] := by decide +kernel
  refine ⟨hA, hB, hperm _ (by decide), hsuits _ hσ, v, w, (hv v).mpr rfl, (hw w).mpr rfl, hbeats.mp hmore, fun h => ?_⟩
  have := hties.mpr h
  omega

end HoldemHandEvaluator

end MasterAI
