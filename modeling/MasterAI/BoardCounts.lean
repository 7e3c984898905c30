import MasterAI.CanonicalCards

namespace MasterAI

/-- Elements of two kinds with bounds on their number and on what each kind yields. -/
theorem flatMap_length_le {α β : Type} {f : α → List β} (p : α → Bool) {l : List α} {a b m n : Nat}
    (hpos : ∀ x ∈ l, p x = true → (f x).length ≤ a) (hneg : ∀ x ∈ l, p x = false → (f x).length ≤ b)
    (hm : (l.filter p).length ≤ m) (hn : (l.filter fun x => !p x).length ≤ n) : (l.flatMap f).length ≤ m * a + n * b := by
  have hle : (l.flatMap f).length ≤ (l.filter p).length * a + (l.filter fun x => !p x).length * b := by
    clear hm hn
    induction l with
    | nil => simp
    | cons x l ih =>
      have ih := ih (fun y hy => hpos y (List.mem_cons_of_mem _ hy)) fun y hy => hneg y (List.mem_cons_of_mem _ hy)
      rw [List.flatMap_cons, List.length_append]
      cases hx : p x with
      | true =>
        have hfirst := hpos x (by simp) hx
        rw [List.filter_cons_of_pos hx, List.filter_cons_of_neg (by simp [hx]), List.length_cons, Nat.succ_mul]
        omega
      | false =>
        have hfirst := hneg x (by simp) hx
        rw [List.filter_cons_of_neg (by simp [hx]), List.filter_cons_of_pos (by simp [hx]), List.length_cons, Nat.succ_mul]
        omega
  exact hle.trans (Nat.add_le_add (Nat.mul_le_mul_right a hm) (Nat.mul_le_mul_right b hn))

/-- A list without repetition whose images lie in another is no longer than it. -/
theorem length_le_of_map_subset {α β : Type} [DecidableEq β] {f : α → β} {l : List α} {l' : List β}
    (hnodup : (l.map f).Nodup) (hsub : ∀ x ∈ l, f x ∈ l') : l.length ≤ l'.length := by
  have hmap : l.map f ⊆ l' := by
    intro y hy
    obtain ⟨x, hx, rfl⟩ := List.mem_map.mp hy
    exact hsub x hx
  have hle := (List.subperm_of_subset hnodup hmap).length_le
  rw [List.length_map] at hle
  exact hle

namespace SGame

section

variable {g : SGame} {st : Nat} {x : BoardNode}

theorem nextBoards_length_le (hx : g.ValidNode st x) :
    (g.nextBoards st x).length ≤ (g.numCardsInDeck - g.numBoardCards st).choose (g.numCardsForStreet (st + 1)) := by
  rw [← hx.length, ← range_filter_length hx.nodup hx.cards, ← fallingCards_length, nextBoards, List.length_map]
  refine (List.length_filter_le _ _).trans ?_
  rw [List.length_map]

end

/-- The number of mappings of a flop, from the suits of its cards rank by rank. -/
def flopMappings (blocks : List (List Nat)) : Nat := (mapRanks 4 blocks ⟨noGroups, groupSizes 4 noGroups, 1⟩).getD 0

/-- No other suits are listed where the blocks of ranks have a shape. -/
def flopCheck (shape : Nat → Nat → Nat → List (List Nat)) (listed : List (List Nat)) : Bool :=
  (List.range 4).all fun s₁ => (List.range 4).all fun s₂ => (List.range 4).all fun s₃ =>
    flopMappings (shape s₁ s₂ s₃) == 0 || !((shape s₁ s₂ s₃).all fun block => decide (block.Pairwise (· > ·))) ||
      listed.contains [s₁, s₂, s₃]

theorem flopCheck_three :
    flopCheck (fun s₁ s₂ s₃ => [[s₁], [s₂], [s₃]]) [[0, 1, 2], [0, 0, 0], [0, 0, 1], [0, 1, 0], [0, 1, 1]] = true := by
  decide +kernel

theorem flopCheck_high_pair : flopCheck (fun s₁ s₂ s₃ => [[s₁, s₂], [s₃]]) [[1, 0, 2], [1, 0, 0]] = true := by
  decide +kernel

theorem flopCheck_low_pair : flopCheck (fun s₁ s₂ s₃ => [[s₁], [s₂, s₃]]) [[0, 2, 1], [0, 1, 0]] = true := by
  decide +kernel

theorem flopCheck_trips : flopCheck (fun s₁ s₂ s₃ => [[s₁, s₂, s₃]]) [[2, 1, 0]] = true := by
  decide +kernel

theorem mem_of_flopCheck {shape : Nat → Nat → Nat → List (List Nat)} {listed : List (List Nat)}
    (h : flopCheck shape listed = true) {s₁ s₂ s₃ : Nat} (h₁ : s₁ < 4) (h₂ : s₂ < 4) (h₃ : s₃ < 4)
    (hne : flopMappings (shape s₁ s₂ s₃) ≠ 0) (hfall : ∀ block ∈ shape s₁ s₂ s₃, block.Pairwise (· > ·)) :
    [s₁, s₂, s₃] ∈ listed := by
  simp only [flopCheck, List.all_eq_true, List.mem_range, Bool.or_eq_true, beq_iff_eq, List.contains_iff_mem,
    Bool.not_eq_true'] at h
  rcases h s₁ h₁ s₂ h₂ s₃ h₃ with (hzero | hrise) | hmem
  · exact absurd hzero hne
  · have hall : ((shape s₁ s₂ s₃).all fun block => decide (block.Pairwise (· > ·))) = true := by
      simpa using hfall
    rw [hall] at hrise
    cases hrise
  · exact hmem

/-- Cards of the given ranks and suits. -/
def dealt (ranks suits : List Nat) : List Nat := List.zipWith holdem.makeCard ranks suits

def highPair (ranks : List Nat) : List Nat := [ranks.getD 0 0, ranks.getD 0 0, ranks.getD 1 0]

def lowPair (ranks : List Nat) : List Nat := [ranks.getD 0 0, ranks.getD 1 0, ranks.getD 1 0]

def trips (ranks : List Nat) : List Nat := [ranks.getD 0 0, ranks.getD 0 0, ranks.getD 0 0]

/-- The listed flops of three suits. -/
def rainbowFlops : List (List Nat) :=
  ((fallingCards [] 3 13).map fun ranks => dealt ranks [0, 1, 2]) ++
    ((fallingCards [] 2 13).map fun ranks => dealt (highPair ranks) [1, 0, 2]) ++
      ((fallingCards [] 2 13).map fun ranks => dealt (lowPair ranks) [0, 2, 1]) ++
        (fallingCards [] 1 13).map fun ranks => dealt (trips ranks) [2, 1, 0]

/-- The listed flops of one or two suits. -/
def otherFlops : List (List Nat) :=
  ((fallingCards [] 3 13).flatMap fun ranks => [[0, 0, 0], [0, 0, 1], [0, 1, 0], [0, 1, 1]].map (dealt ranks)) ++
    ((fallingCards [] 2 13).map fun ranks => dealt (highPair ranks) [1, 0, 0]) ++
      (fallingCards [] 2 13).map fun ranks => dealt (lowPair ranks) [0, 1, 0]

theorem ranks_length (n : Nat) : (fallingCards [] n 13).length = Nat.choose 13 n := by
  rw [fallingCards_length]
  rfl

theorem rainbowFlops_length : rainbowFlops.length = 455 := by
  simp only [rainbowFlops, List.length_append, List.length_map, ranks_length]
  rfl

theorem otherFlops_length : otherFlops.length = 1300 := by
  simp only [otherFlops, List.length_append, List.length_map, List.length_flatMap, ranks_length, List.length_cons,
    List.length_nil, List.map_const', List.sum_replicate]
  rfl

/-- A flop of three suits, or one of the others, which leave two suits out. -/
def ListedFlop (cards : List Nat) : Prop :=
  cards ∈ rainbowFlops ∨ cards ∈ otherFlops ∧ ∀ c ∈ cards, holdem.suit c ≠ 2

section

variable {c₁ c₂ c₃ : Nat}

theorem flop_eq_dealt : [c₁, c₂, c₃] =
    dealt [holdem.rank c₁, holdem.rank c₂, holdem.rank c₃] [holdem.suit c₁, holdem.suit c₂, holdem.suit c₃] := by
  simp [dealt, card_eq]

theorem ListedFlop.of_other {suits : List Nat} (hmem : [c₁, c₂, c₃] ∈ otherFlops)
    (hsuits : [holdem.suit c₁, holdem.suit c₂, holdem.suit c₃] = suits) (htwo : 2 ∉ suits) :
    ListedFlop [c₁, c₂, c₃] := by
  refine Or.inr ⟨hmem, ?_⟩
  intro c hc heq
  apply htwo
  rw [← hsuits, ← heq]
  exact List.mem_map_of_mem (f := holdem.suit) hc

variable (h₁₂ : c₂ < c₁) (h₂₃ : c₃ < c₂) (hr₁ : holdem.rank c₁ < 13)
  (hmappings : flopMappings ((holdem.rankBlocks [c₁, c₂, c₃]).map (List.map holdem.suit)) ≠ 0)

include h₁₂ h₂₃ hr₁ hmappings

theorem trips_listed (hhigh : holdem.rank c₂ = holdem.rank c₁) (hlow : holdem.rank c₃ = holdem.rank c₂) :
    ListedFlop [c₁, c₂, c₃] := by
  have hs₂₁ := suit_lt_of_rank_eq h₁₂ hhigh
  have hs₃₂ := suit_lt_of_rank_eq h₂₃ hlow
  have hblocks : holdem.rankBlocks [c₁, c₂, c₃] = [[c₁, c₂, c₃]] := by simp [rankBlocks, hhigh, hlow]
  rw [hblocks] at hmappings
  have hsuits := mem_of_flopCheck flopCheck_trips (suit_lt c₁) (suit_lt c₂) (suit_lt c₃) hmappings
    (by simp; omega)
  have hranks : [holdem.rank c₁] ∈ fallingCards [] 1 13 := mem_fallingCards.mpr ⟨rfl, by simp, by simpa using hr₁⟩
  rw [List.mem_singleton] at hsuits
  left
  rw [flop_eq_dealt, hsuits, hlow, hhigh]
  exact List.mem_append_right _ (List.mem_map_of_mem hranks)

theorem highPair_listed (hhigh : holdem.rank c₂ = holdem.rank c₁) (hlow : holdem.rank c₃ ≠ holdem.rank c₂) :
    ListedFlop [c₁, c₂, c₃] := by
  have hs₂₁ := suit_lt_of_rank_eq h₁₂ hhigh
  have hr₃₂ := rank_le_of_lt (g := holdem) h₂₃
  rw [hhigh] at hlow
  have hblocks : holdem.rankBlocks [c₁, c₂, c₃] = [[c₁, c₂], [c₃]] := by simp [rankBlocks, hhigh, hlow]
  rw [hblocks] at hmappings
  have hsuits := mem_of_flopCheck flopCheck_high_pair (suit_lt c₁) (suit_lt c₂) (suit_lt c₃) hmappings
    (by simp; omega)
  have hranks : [holdem.rank c₁, holdem.rank c₃] ∈ fallingCards [] 2 13 :=
    mem_fallingCards.mpr ⟨rfl, by simp; omega, by simp; omega⟩
  rw [List.mem_cons, List.mem_singleton] at hsuits
  rcases hsuits with hsuits | hsuits
  · left
    rw [flop_eq_dealt, hsuits, hhigh]
    exact List.mem_append_left _ (List.mem_append_left _ (List.mem_append_right _ (List.mem_map_of_mem hranks)))
  · refine ListedFlop.of_other ?_ hsuits (by decide)
    rw [flop_eq_dealt, hsuits, hhigh]
    exact List.mem_append_left _ (List.mem_append_right _ (List.mem_map_of_mem hranks))

theorem lowPair_listed (hhigh : holdem.rank c₂ ≠ holdem.rank c₁) (hlow : holdem.rank c₃ = holdem.rank c₂) :
    ListedFlop [c₁, c₂, c₃] := by
  have hs₃₂ := suit_lt_of_rank_eq h₂₃ hlow
  have hr₂₁ := rank_le_of_lt (g := holdem) h₁₂
  have hblocks : holdem.rankBlocks [c₁, c₂, c₃] = [[c₁], [c₂, c₃]] := by simp [rankBlocks, hhigh, hlow]
  rw [hblocks] at hmappings
  have hsuits := mem_of_flopCheck flopCheck_low_pair (suit_lt c₁) (suit_lt c₂) (suit_lt c₃) hmappings
    (by simp; omega)
  have hranks : [holdem.rank c₁, holdem.rank c₂] ∈ fallingCards [] 2 13 :=
    mem_fallingCards.mpr ⟨rfl, by simp; omega, by simp; omega⟩
  rw [List.mem_cons, List.mem_singleton] at hsuits
  rcases hsuits with hsuits | hsuits
  · left
    rw [flop_eq_dealt, hsuits, hlow]
    exact List.mem_append_left _ (List.mem_append_right _ (List.mem_map_of_mem hranks))
  · refine ListedFlop.of_other ?_ hsuits (by decide)
    rw [flop_eq_dealt, hsuits, hlow]
    exact List.mem_append_right _ (List.mem_map_of_mem hranks)

theorem threeRanks_listed (hhigh : holdem.rank c₂ ≠ holdem.rank c₁) (hlow : holdem.rank c₃ ≠ holdem.rank c₂) :
    ListedFlop [c₁, c₂, c₃] := by
  have hr₂₁ := rank_le_of_lt (g := holdem) h₁₂
  have hr₃₂ := rank_le_of_lt (g := holdem) h₂₃
  have hblocks : holdem.rankBlocks [c₁, c₂, c₃] = [[c₁], [c₂], [c₃]] := by simp [rankBlocks, hhigh, hlow]
  rw [hblocks] at hmappings
  have hsuits := mem_of_flopCheck flopCheck_three (suit_lt c₁) (suit_lt c₂) (suit_lt c₃) hmappings (by simp)
  have hranks : [holdem.rank c₁, holdem.rank c₂, holdem.rank c₃] ∈ fallingCards [] 3 13 :=
    mem_fallingCards.mpr ⟨rfl, by simp; omega, by simp; omega⟩
  rcases List.mem_cons.mp hsuits with hsuits | hsuits
  · left
    rw [flop_eq_dealt, hsuits]
    exact List.mem_append_left _ (List.mem_append_left _ (List.mem_append_left _ (List.mem_map_of_mem hranks)))
  · refine ListedFlop.of_other ?_ rfl ?_
    · rw [flop_eq_dealt]
      exact List.mem_append_left _ (List.mem_append_left _
        (List.mem_flatMap.mpr ⟨_, hranks, List.mem_map_of_mem hsuits⟩))
    · intro htwo
      have hfree : [[0, 0, 0], [0, 0, 1], [0, 1, 0], [0, 1, 1]].all (fun suits => !suits.contains 2) = true := by
        decide
      have hcontains := List.all_eq_true.mp hfree _ hsuits
      simp [htwo] at hcontains

end

/-- A flop of the first street is listed: by how its ranks repeat, its suits are those of a flop check. -/
theorem flop_listed {x : BoardNode} (hx : x ∈ holdem.streetBoards 1) : ListedFlop x.1 := by
  have hnext : x ∈ holdem.nextBoards 0 ([], noGroups) := by
    simpa [streetBoards_succ, streetBoards, descend] using hx
  obtain ⟨e, he, rfl⟩ := List.mem_map.mp hnext
  obtain ⟨he, hvariants⟩ := List.mem_filter.mp he
  obtain ⟨cards, hcards, rfl⟩ := List.mem_map.mp he
  obtain ⟨hlength, hfall, hbound⟩ := mem_fallingCards.mp hcards
  have hmappings : flopMappings ((holdem.rankBlocks cards).map (List.map holdem.suit)) ≠ 0 := by
    intro hzero
    have hentry : (holdem.entryOf noGroups cards).numMappings =
        flopMappings ((holdem.rankBlocks cards).map (List.map holdem.suit)) := rfl
    simp [TypicalEntry.numVariants, hentry, hzero] at hvariants
  obtain ⟨c₁, c₂, c₃, rfl⟩ := List.length_eq_three.mp hlength
  obtain ⟨hfirst, hrest⟩ := List.pairwise_cons.mp hfall
  have h₁₂ : c₂ < c₁ := hfirst c₂ (by simp)
  have h₂₃ : c₃ < c₂ := (List.pairwise_cons.mp hrest).1 c₃ (by simp)
  have hr₁ : holdem.rank c₁ < 13 := rank_lt (hbound c₁ (by simp)).1
  change ListedFlop [c₁, c₂, c₃]
  by_cases hhigh : holdem.rank c₂ = holdem.rank c₁
  · by_cases hlow : holdem.rank c₃ = holdem.rank c₂
    · exact trips_listed h₁₂ h₂₃ hr₁ hmappings hhigh hlow
    · exact highPair_listed h₁₂ h₂₃ hr₁ hmappings hhigh hlow
  · by_cases hlow : holdem.rank c₃ = holdem.rank c₂
    · exact lowPair_listed h₁₂ h₂₃ hr₁ hmappings hhigh hlow
    · exact threeRanks_listed h₁₂ h₂₃ hr₁ hmappings hhigh hlow

/-- A flop that leaves two suits out has no turn of the last suit. -/
theorem turns_length_le {x : BoardNode} (hx : x ∈ holdem.streetBoards 1) (hout : ∀ c ∈ x.1, holdem.suit c ≠ 2) :
    (holdem.nextBoards 1 x).length ≤ 39 := by
  have hg := holdem_playable.toDealable
  have hvalid := streetBoards_valid hg (by decide) hx
  have hnext : x ∈ holdem.nextBoards 0 ([], noGroups) := by
    simpa [streetBoards_succ, streetBoards, descend] using hx
  obtain ⟨flop, -, hcodes, hflop⟩ := (mem_nextBoards hg (by decide) ValidNode.root).mp hnext
  rw [hflop] at hout
  have hzero : holdem.seenRanks flop 2 = 0 := by
    apply Nat.eq_of_testBit_eq
    intro r
    rw [Nat.zero_testBit, Bool.eq_false_iff, ne_eq, testBit_seenRanks]
    rintro ⟨c, hc, hsuit, -⟩
    exact hout c hc hsuit
  have hlast : holdem.seenRanks flop 3 = 0 := by
    have := hcodes 2 3 (by decide) (by decide) rfl
    omega
  have hgroup : groupOf x.2 2 = groupOf x.2 3 := by
    rw [hflop]
    exact (updateSuitGroups_eq_iff hg.suits (by decide) (by decide)).mpr ⟨rfl, hzero.trans hlast.symm⟩
  have hcount : (((List.range 52).filter fun c => holdem.suit c ≠ 3).map fun c => x.1 ++ [c]).length = 39 := by
    rw [List.length_map]
    decide
  rw [← hcount]
  apply length_le_of_map_subset nextBoards_distinct
  intro y hy
  obtain ⟨cards, hcards, hfalling, rfl⟩ := (mem_nextBoards hg (by decide) hvalid).mp hy
  obtain ⟨hlength, -, hbound⟩ := mem_fallingCards.mp hcards
  obtain ⟨c, rfl⟩ := List.length_eq_one_iff.mp hlength
  refine List.mem_map.mpr ⟨c, List.mem_filter.mpr ⟨List.mem_range.mpr (hbound c (by simp)).1, ?_⟩, rfl⟩
  rw [decide_eq_true_eq]
  intro hsuit
  have hle := hfalling 2 3 (by decide) (by decide) hgroup
  rw [seenRanks_cons, seenRanks_cons, if_pos hsuit, if_neg (by omega)] at hle
  simp [seenRanks] at hle

theorem flops_length_le : (holdem.streetBoards 1).length ≤ 1755 := by
  have hdistinct := streetBoards_distinct holdem_playable.toDealable (show 1 ≤ holdem.maxStreet by decide)
  have hlisted : ∀ x ∈ holdem.streetBoards 1, x.1 ∈ rainbowFlops ++ otherFlops := by
    intro x hx
    rcases flop_listed hx with hmem | ⟨hmem, -⟩
    · exact List.mem_append_left _ hmem
    · exact List.mem_append_right _ hmem
  have hle := length_le_of_map_subset hdistinct hlisted
  rw [List.length_append, rainbowFlops_length, otherFlops_length] at hle
  exact hle

theorem nextBoards_length_flop {x : BoardNode} (hx : x ∈ holdem.streetBoards 1) : (holdem.nextBoards 1 x).length ≤ 49 := by
  have hle := nextBoards_length_le (streetBoards_valid holdem_playable.toDealable (show 1 ≤ holdem.maxStreet by decide) hx)
  have hnum : (holdem.numCardsInDeck - holdem.numBoardCards 1).choose (holdem.numCardsForStreet (1 + 1)) = 49 := by decide
  rw [hnum] at hle
  exact hle

theorem nextBoards_length_turn {x : BoardNode} (hx : x ∈ holdem.streetBoards 2) : (holdem.nextBoards 2 x).length ≤ 48 := by
  have hle := nextBoards_length_le (streetBoards_valid holdem_playable.toDealable (show 2 ≤ holdem.maxStreet by decide) hx)
  have hnum : (holdem.numCardsInDeck - holdem.numBoardCards 2).choose (holdem.numCardsForStreet (2 + 1)) = 48 := by decide
  rw [hnum] at hle
  exact hle

theorem turnBoards_length_le : (holdem.streetBoards 2).length ≤ 72995 := by
  have hdistinct := streetBoards_distinct holdem_playable.toDealable (show 1 ≤ holdem.maxStreet by decide)
  have hrainbow : ((holdem.streetBoards 1).filter fun x => decide (x.1 ∈ rainbowFlops)).length ≤ 455 := by
    rw [← rainbowFlops_length]
    apply length_le_of_map_subset (hdistinct.sublist (List.filter_sublist.map _))
    intro x hx
    simpa using (List.mem_filter.mp hx).2
  have hother : ((holdem.streetBoards 1).filter fun x => !decide (x.1 ∈ rainbowFlops)).length ≤ 1300 := by
    rw [← otherFlops_length]
    apply length_le_of_map_subset (hdistinct.sublist (List.filter_sublist.map _))
    intro x hx
    obtain ⟨hmem, hnot⟩ := List.mem_filter.mp hx
    exact ((flop_listed hmem).resolve_left (by simpa using hnot)).1
  have hnext : holdem.streetBoards 2 = (holdem.streetBoards 1).flatMap (holdem.nextBoards 1) := streetBoards_succ
  have hturns : ∀ x ∈ holdem.streetBoards 1, decide (x.1 ∈ rainbowFlops) = false → (holdem.nextBoards 1 x).length ≤ 39 := by
    intro x hx hnot
    exact turns_length_le hx ((flop_listed hx).resolve_left (by simpa using hnot)).2
  rw [hnext]
  have hall : ∀ x ∈ holdem.streetBoards 1, decide (x.1 ∈ rainbowFlops) = true → (holdem.nextBoards 1 x).length ≤ 49 :=
    fun x hx _ => nextBoards_length_flop hx
  exact flatMap_length_le _ hall hturns hrainbow hother

theorem riverBoards_length_le : (holdem.streetBoards 3).length ≤ 3503760 := by
  have hall : ((holdem.streetBoards 2).filter fun _ => true).length ≤ 72995 := by
    rw [List.filter_true]
    exact turnBoards_length_le
  have hnone : ((holdem.streetBoards 2).filter fun _ => !true).length ≤ 0 := by
    rw [Bool.not_true, List.filter_false]
    exact le_refl 0
  have hnext : holdem.streetBoards 3 = (holdem.streetBoards 2).flatMap (holdem.nextBoards 2) := streetBoards_succ
  rw [hnext]
  have hle := flatMap_length_le (f := holdem.nextBoards 2) (b := 0) (fun _ => true)
    (fun x hx _ => nextBoards_length_turn hx) (by simp) hall hnone
  exact hle

end SGame

end MasterAI
