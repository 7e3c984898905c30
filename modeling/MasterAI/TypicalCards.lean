import Mathlib.Algebra.GroupWithZero.Nat
import Mathlib.Data.List.Sort
import Mathlib.Data.List.Sublists
import Mathlib.Data.Nat.Choose.Basic

namespace MasterAI

/-- The cards of a game. `streetCards` lists how many board cards each street after the first adds. -/
structure SGame where
  numRanks : Nat
  numSuits : Nat
  numHoleCards : Nat
  streetCards : List Nat
  ranks_pos : 0 < numRanks
  suits_pos : 0 < numSuits

namespace SGame

variable (g : SGame)

def maxStreet : Nat := g.streetCards.length

def numCardsForStreet : Nat → Nat
  | 0 => g.numHoleCards
  | st + 1 => g.streetCards.getD st 0

def numBoardCards (st : Nat) : Nat := (g.streetCards.take st).sum

def numCardsInDeck : Nat := g.numRanks * g.numSuits

def rank (c : Nat) : Nat := c / g.numSuits

def suit (c : Nat) : Nat := c % g.numSuits

def makeCard (rank suit : Nat) : Nat := rank * g.numSuits + suit

end SGame

/-- The four bytes of a suit group word: the lowest suit that is like each suit so far. -/
abbrev SuitGroups := List Nat

def groupOf (sg : SuitGroups) (s : Nat) : Nat := sg.getD s 0

def nChooseK (n k : Nat) : Nat :=
  ((List.range k).foldl (fun numer i => numer * (n - i)) 1) / (List.range k).foldl (fun denom i => denom * (k - i)) 1

/-- The groups, their sizes and the number of mappings in `NumMappings`. -/
structure Mappings where
  groups : SuitGroups
  size : List Nat
  num : Nat
  deriving DecidableEq, Repr

/-- The loop that checks that a group uses its lowest suits: none where it leaves the word, some none
where a suit is passed over, or the last suit in use. -/
def lowestUsed (sg : SuitGroups) (suits : List Nat) (group : Nat) : Nat → Nat → Option (Option Nat)
  | 0, _ => none
  | left + 1, s =>
    if s ∉ suits then some none
    else if left = 0 then some (some s)
    else
      match (List.range 4).find? fun t => s < t ∧ groupOf sg t = group with
      | none => none
      | some t => lowestUsed sg suits group left t

/-- The suits of a group from a suit on become a group of their own. -/
def splitGroup (numSuits group s : Nat) (sg : SuitGroups) : SuitGroups :=
  (List.range 4).map fun t => if s ≤ t ∧ t < numSuits ∧ groupOf sg t = group then s else groupOf sg t

/-- One group in the loop of `NumMappings` over the groups, for the suits of the cards of one rank. -/
def mapGroup (numSuits : Nat) (suits : List Nat) (old : SuitGroups) (m : Mappings) (group : Nat) :
    Option (Option Mappings) :=
  let groupUsed := suits.countP fun s => groupOf old s = group
  if groupUsed = 0 then some (some m)
  else
    let t := m.size.getD group 0
    let num := m.num * nChooseK t groupUsed
    let size := m.size.set group groupUsed
    match lowestUsed m.groups suits group groupUsed group with
    | none => none
    | some none => some none
    | some (some s) =>
      match (List.range numSuits).find? fun t => s < t ∧ groupOf m.groups t = group with
      | none => some (some ⟨m.groups, size, num⟩)
      | some s => some (some ⟨splitGroup numSuits group s m.groups, size.set s (t - groupUsed), num⟩)

def mapGroups (numSuits : Nat) (suits : List Nat) (old : SuitGroups) : List Nat → Mappings → Option (Option Mappings)
  | [], m => some (some m)
  | group :: rest, m =>
    match mapGroup numSuits suits old m group with
    | none => none
    | some none => some none
    | some (some m) => mapGroups numSuits suits old rest m

/-- The loop of `NumMappings` over the ranks. -/
def mapRanks (numSuits : Nat) : List (List Nat) → Mappings → Option Nat
  | [], m => some m.num
  | suits :: rest, m =>
    match mapGroups numSuits suits m.groups (List.range numSuits) m with
    | none => none
    | some none => some 0
    | some (some m) => mapRanks numSuits rest m

def groupSizes (numSuits : Nat) (sg : SuitGroups) : List Nat :=
  (List.range numSuits).map fun group => (List.range numSuits).countP fun s => groupOf sg s = group

namespace SGame

variable (g : SGame)

/-- The cards of a list, cut where the rank changes. -/
def rankBlocks : List Nat → List (List Nat)
  | [] => []
  | c :: rest =>
    match rankBlocks rest with
    | (d :: block) :: blocks =>
      if g.rank d = g.rank c then (c :: d :: block) :: blocks else [c] :: (d :: block) :: blocks
    | blocks => [c] :: blocks

/-- How many raw card sets a set of cards stands for, and none of them where it is not the first.
The arrays have four entries, so with more suits the program leaves them. -/
def numMappings (cards : List Nat) (sg : SuitGroups) : Option Nat :=
  if g.numSuits > 4 then none
  else mapRanks g.numSuits ((g.rankBlocks cards).map (List.map g.suit)) ⟨sg, groupSizes g.numSuits sg, 1⟩

/-- The ranks of the cards of a suit, as a set of bits. -/
def seenRanks (cards : List Nat) (s : Nat) : Nat :=
  cards.foldl (fun seen c => if g.suit c = s then seen ||| 2 ^ g.rank c else seen) 0

end SGame

/-- Each suit with the lowest suit that it is the same as. -/
def suitClasses (numSuits : Nat) (same : Nat → Nat → Bool) : SuitGroups :=
  (List.range 4).map fun t => if t < numSuits then ((List.range t).find? fun s => same s t).getD t else 0

namespace SGame

variable (g : SGame)

def updateSuitGroups (cards : List Nat) (old : SuitGroups) : SuitGroups :=
  suitClasses g.numSuits fun s t => groupOf old s = groupOf old t ∧ g.seenRanks cards s = g.seenRanks cards t

end SGame

/-- A set of cards among those that `TypicalCards` lists. -/
structure TypicalEntry where
  cards : List Nat
  numMappings : Nat
  suitGroups : SuitGroups
  deriving DecidableEq, Repr

/-- The number of variants is kept in a byte. -/
def TypicalEntry.numVariants (e : TypicalEntry) : Nat := e.numMappings % 256

/-- The falling lists of cards below a bound that are not among the previous cards. -/
def fallingCards (previous : List Nat) : Nat → Nat → List (List Nat)
  | 0, _ => [[]]
  | n + 1, bound =>
    ((List.range bound).filter fun c => c ∉ previous).flatMap fun c => (fallingCards previous n c).map fun cards => c :: cards

/-- The number of card sets that `TypicalCards` makes room for; none where it does not handle so many. -/
def numRaw (numRemaining : Nat) : Nat → Option Nat
  | 1 => some numRemaining
  | 2 => some (numRemaining * (numRemaining - 1) / 2)
  | 3 => some (numRemaining * (numRemaining - 1) * (numRemaining - 2) / 6)
  | _ => none

namespace SGame

variable (g : SGame)

/-- All sets of cards that can come next; nothing where the program exits. -/
def typicalCards (n : Nat) (previous : List Nat) (sg : SuitGroups) : Option (List TypicalEntry) :=
  (numRaw (g.numCardsInDeck - previous.length) n).bind fun num =>
    let raw := fallingCards previous n g.numCardsInDeck
    if raw.length ≠ num then none
    else
      raw.mapM fun cards =>
        (g.numMappings cards sg).map fun numMappings => ⟨cards, numMappings, g.updateSuitGroups cards sg⟩

end SGame

/-- The bytes of a word of suit groups: every suit with the lowest suit of its group. -/
def ValidGroups (numSuits : Nat) (sg : SuitGroups) : Prop :=
  sg.length = 4 ∧ (∀ s < numSuits, groupOf sg s ≤ s ∧ groupOf sg (groupOf sg s) = groupOf sg s) ∧
    ∀ s < 4, numSuits ≤ s → groupOf sg s = 0

instance (n : Nat) (sg : SuitGroups) : Decidable (ValidGroups n sg) := inferInstanceAs (Decidable (_ ∧ _ ∧ _))

section

variable {n s t : Nat} {same : Nat → Nat → Bool} {sg : SuitGroups} {suits : List Nat}

theorem groupOf_suitClasses (ht : t < 4) :
    groupOf (suitClasses n same) t = if t < n then ((List.range t).find? fun s => same s t).getD t else 0 := by
  simp [groupOf, suitClasses, ht]

/-- The class of a suit is named by the first suit that is the same. -/
theorem suitClasses_first (hrefl : ∀ s, same s s = true) (hn : n ≤ 4) (ht : t < n) :
    groupOf (suitClasses n same) t ≤ t ∧ same (groupOf (suitClasses n same) t) t = true ∧
      ∀ s < groupOf (suitClasses n same) t, same s t = false := by
  rw [groupOf_suitClasses (by omega), if_pos ht]
  cases hfind : (List.range t).find? fun s => same s t with
  | none =>
    refine ⟨le_refl t, hrefl t, ?_⟩
    intro s hs
    have hnone := List.find?_eq_none.mp hfind s (List.mem_range.mpr hs)
    simpa using hnone
  | some s =>
    obtain ⟨hsame, hmem, hbefore⟩ := List.find?_range_eq_some.mp hfind
    refine ⟨(List.mem_range.mp hmem).le, hsame, ?_⟩
    intro u hu
    simpa using hbefore u hu

theorem suitClasses_eq_iff (hrefl : ∀ s, same s s = true) (hsymm : ∀ s t, same s t = true → same t s = true)
    (htrans : ∀ s t u, same s t = true → same t u = true → same s u = true) (hn : n ≤ 4) (hs : s < n) (ht : t < n) :
    groupOf (suitClasses n same) s = groupOf (suitClasses n same) t ↔ same s t = true := by
  obtain ⟨-, hsameS, hfirstS⟩ := suitClasses_first hrefl hn hs
  obtain ⟨-, hsameT, hfirstT⟩ := suitClasses_first hrefl hn ht
  constructor
  · intro heq
    rw [← heq] at hsameT
    exact htrans _ _ _ (hsymm _ _ hsameS) hsameT
  · intro hst
    rcases Nat.lt_trichotomy (groupOf (suitClasses n same) s) (groupOf (suitClasses n same) t) with hlt | heq | hlt
    · have := hfirstT _ hlt
      rw [htrans _ _ _ hsameS hst] at this
      cases this
    · exact heq
    · have := hfirstS _ hlt
      rw [htrans _ _ _ hsameT (hsymm _ _ hst)] at this
      cases this

theorem validGroups_suitClasses (hrefl : ∀ s, same s s = true) (hsymm : ∀ s t, same s t = true → same t s = true)
    (htrans : ∀ s t u, same s t = true → same t u = true → same s u = true) (hn : n ≤ 4) :
    ValidGroups n (suitClasses n same) := by
  refine ⟨by simp [suitClasses], ?_, ?_⟩
  · intro s hs
    obtain ⟨hle, hsame, -⟩ := suitClasses_first hrefl hn hs
    exact ⟨hle, (suitClasses_eq_iff hrefl hsymm htrans hn (by omega) hs).mpr hsame⟩
  · intro s hs hns
    rw [groupOf_suitClasses hs, if_neg (by omega)]

/-- The groups after the cards of one rank: suits stay together that were so far and are both in use or
both not. -/
def refinedGroups (n : Nat) (sg : SuitGroups) (suits : List Nat) : SuitGroups :=
  suitClasses n fun s t => groupOf sg s = groupOf sg t ∧ (s ∈ suits ↔ t ∈ suits)

theorem refinedGroups_eq_iff (hn : n ≤ 4) (hs : s < n) (ht : t < n) :
    groupOf (refinedGroups n sg suits) s = groupOf (refinedGroups n sg suits) t ↔
      groupOf sg s = groupOf sg t ∧ (s ∈ suits ↔ t ∈ suits) := by
  unfold refinedGroups
  rw [suitClasses_eq_iff (by simp) (by simp; tauto) (by simp; intros; simp_all) hn hs ht]
  simp

theorem refinedGroups_valid (hn : n ≤ 4) : ValidGroups n (refinedGroups n sg suits) := by
  apply validGroups_suitClasses (by simp) (by simp; tauto) (by simp; intros; simp_all) hn

/-- Every group uses its lowest suits. -/
def lowestFirst (n : Nat) (sg : SuitGroups) (suits : List Nat) : Bool :=
  (List.range n).all fun t => (List.range t).all fun s => groupOf sg s = groupOf sg t → t ∈ suits → s ∈ suits

theorem lowestFirst_iff :
    lowestFirst n sg suits = true ↔ ∀ s t, s < t → t < n → groupOf sg s = groupOf sg t → t ∈ suits → s ∈ suits := by
  simp only [lowestFirst, List.all_eq_true, List.mem_range, decide_eq_true_eq]
  constructor
  · intro h s t hst htn
    exact h t htn s hst
  · intro h t htn s hst
    exact h s t hst htn

/-- What the loop over the groups comes to for the cards of one rank. -/
def mapsGroups (n : Nat) (sg : SuitGroups) (suits : List Nat) : Bool :=
  match mapGroups n suits sg (List.range n) ⟨sg, groupSizes n sg, 1⟩ with
  | none => false
  | some none => !lowestFirst n sg suits
  | some (some m) =>
    lowestFirst n sg suits && m.groups == refinedGroups n sg suits &&
      m.size == groupSizes n (refinedGroups n sg suits) && decide (0 < m.num ∧ m.num ≤ 6 ^ suits.length)

def groupLists : List SuitGroups :=
  (List.range 2).flatMap fun b => (List.range 3).flatMap fun c => (List.range 4).map fun d => [0, b, c, d]

theorem mapsGroups_all :
    ([1, 2, 3, 4].all fun n => groupLists.all fun sg => [3, 2, 1, 0].sublists.all fun suits =>
      !decide (ValidGroups n sg) || !(suits.all fun s => s < n) || mapsGroups n sg suits) = true := by
  decide +kernel

theorem ValidGroups.mem_groupLists (h : ValidGroups n sg) : sg ∈ groupLists := by
  obtain ⟨hlength, hle, hrest⟩ := h
  match sg, hlength with
  | [a, b, c, d], _ =>
    have hbound : ∀ s < 4, groupOf [a, b, c, d] s ≤ s := by
      intro s hs
      by_cases hsn : s < n
      · exact (hle s hsn).1
      · rw [hrest s hs (by omega)]
        omega
    have h0 := hbound 0 (by omega)
    have h1 := hbound 1 (by omega)
    have h2 := hbound 2 (by omega)
    have h3 := hbound 3 (by omega)
    simp only [groupOf, List.getD_cons_zero, List.getD_cons_succ] at h0 h1 h2 h3
    simp only [groupLists, List.mem_flatMap, List.mem_map, List.mem_range, List.cons.injEq, and_true]
    exact ⟨b, by omega, c, by omega, d, by omega, by omega, rfl, rfl, rfl⟩

theorem sublist_of_falling (hfall : suits.Pairwise (· > ·)) (hlt : ∀ s ∈ suits, s < 4) :
    List.Sublist suits [3, 2, 1, 0] := by
  apply List.sublist_of_subperm_of_pairwise (r := fun a b => a ≥ b)
  · apply List.subperm_of_subset (hfall.imp fun h => Nat.ne_of_gt h)
    intro s hs
    have := hlt s hs
    simp only [List.mem_cons, List.not_mem_nil, or_false]
    omega
  · exact hfall.imp fun h => Nat.le_of_lt h
  · decide

theorem mapGroup_num (old : SuitGroups) (size : List Nat) (k group : Nat) :
    mapGroup n suits old ⟨sg, size, k⟩ group =
      (mapGroup n suits old ⟨sg, size, 1⟩ group).map (Option.map fun m => { m with num := k * m.num }) := by
  simp only [mapGroup]
  split
  · simp
  · split
    · rfl
    · rfl
    · rename_i s _
      cases (List.range n).find? fun t => decide (s < t ∧ groupOf sg t = group) with
      | none => simp only [Option.map_some, Nat.one_mul]
      | some t => simp only [Option.map_some, Nat.one_mul]

theorem mapGroups_num (old : SuitGroups) (groups : List Nat) (size : List Nat) (k : Nat) :
    mapGroups n suits old groups ⟨sg, size, k⟩ =
      (mapGroups n suits old groups ⟨sg, size, 1⟩).map (Option.map fun m => { m with num := k * m.num }) := by
  induction groups generalizing sg size k with
  | nil => simp [mapGroups]
  | cons group rest ih =>
    rw [mapGroups, mapGroups, mapGroup_num]
    cases hgroup : mapGroup n suits old ⟨sg, size, 1⟩ group with
    | none => rfl
    | some result =>
      cases result with
      | none => rfl
      | some m =>
        obtain ⟨sg', size', num⟩ := m
        simp only [Option.map_some]
        rw [ih, ih (k := num)]
        cases mapGroups n suits old rest ⟨sg', size', 1⟩ with
        | none => rfl
        | some result => cases result <;> simp [Nat.mul_assoc]

/-- What holds for all lists of groups and all falling suits, by a table of them. -/
theorem of_groupLists {check : Nat → SuitGroups → List Nat → Bool}
    (hall : ([1, 2, 3, 4].all fun n => groupLists.all fun sg => [3, 2, 1, 0].sublists.all fun suits =>
      !decide (ValidGroups n sg) || !(suits.all fun s => s < n) || check n sg suits) = true)
    (hvalid : ValidGroups n sg) (hpos : 0 < n) (hn : n ≤ 4) (hfall : suits.Pairwise (· > ·))
    (hlt : ∀ s ∈ suits, s < n) : check n sg suits = true := by
  have hmem : n ∈ [1, 2, 3, 4] := by
    simp only [List.mem_cons, List.not_mem_nil, or_false]
    omega
  have hsub : suits ∈ [3, 2, 1, 0].sublists :=
    List.mem_sublists.mpr (sublist_of_falling hfall fun s hs => Nat.lt_of_lt_of_le (hlt s hs) hn)
  have hcheck := List.all_eq_true.mp (List.all_eq_true.mp (List.all_eq_true.mp hall n hmem) sg
    hvalid.mem_groupLists) suits hsub
  have hbelow : (suits.all fun s => decide (s < n)) = true := by simpa using hlt
  simpa only [hvalid, hbelow, decide_true, Bool.not_true, Bool.false_or] using hcheck

/-- The cards of one rank pass where every group uses its lowest suits, and then refine the groups. -/
theorem mapGroups_spec (hvalid : ValidGroups n sg) (hpos : 0 < n) (hn : n ≤ 4) (hfall : suits.Pairwise (· > ·))
    (hlt : ∀ s ∈ suits, s < n) (k : Nat) :
    (lowestFirst n sg suits = false ∧
        mapGroups n suits sg (List.range n) ⟨sg, groupSizes n sg, k⟩ = some none) ∨
      (lowestFirst n sg suits = true ∧ ∃ num, 0 < num ∧ num ≤ 6 ^ suits.length ∧
        mapGroups n suits sg (List.range n) ⟨sg, groupSizes n sg, k⟩ =
          some (some ⟨refinedGroups n sg suits, groupSizes n (refinedGroups n sg suits), k * num⟩)) := by
  have hcheck := of_groupLists mapsGroups_all hvalid hpos hn hfall hlt
  rw [mapGroups_num]
  unfold mapsGroups at hcheck
  split at hcheck
  · cases hcheck
  · rename_i hmap
    exact Or.inl ⟨by simpa using hcheck, by rw [hmap]; rfl⟩
  · rename_i m hmap
    obtain ⟨sg', size, num⟩ := m
    simp only [Bool.and_eq_true, beq_iff_eq, decide_eq_true_eq] at hcheck
    obtain ⟨⟨⟨hlow, rfl⟩, rfl⟩, hnum, hbound⟩ := hcheck
    exact Or.inr ⟨hlow, num, hnum, hbound, by rw [hmap]; rfl⟩

end

namespace SGame

section

variable {g : SGame} {n s t r : Nat} {sg : SuitGroups} {c : Nat} {cards rest : List Nat} {blocks : List (List Nat)}

theorem seenRanks_cons :
    g.seenRanks (c :: cards) s =
      if g.suit c = s then g.seenRanks cards s ||| 2 ^ g.rank c else g.seenRanks cards s := by
  have hstart : ∀ (l : List Nat) (a b : Nat),
      l.foldl (fun seen c => if g.suit c = s then seen ||| 2 ^ g.rank c else seen) (a ||| b) =
        l.foldl (fun seen c => if g.suit c = s then seen ||| 2 ^ g.rank c else seen) a ||| b := by
    intro l
    induction l with
    | nil => exact fun _ _ => rfl
    | cons d l ih =>
      intro a b
      rw [List.foldl_cons, List.foldl_cons]
      split
      · rw [Nat.or_assoc, Nat.or_comm b, ← Nat.or_assoc, ih]
      · exact ih a b
  unfold seenRanks
  rw [List.foldl_cons]
  split
  · exact hstart cards 0 _
  · rfl

theorem seenRanks_lt (h : ∀ c ∈ cards, g.rank c < r) : g.seenRanks cards s < 2 ^ r := by
  induction cards with
  | nil => exact Nat.two_pow_pos r
  | cons c cards ih =>
    have hrest := ih fun d hd => h d (List.mem_cons_of_mem _ hd)
    rw [seenRanks_cons]
    split
    · apply Nat.or_lt_two_pow hrest
      exact Nat.pow_lt_pow_right (by omega) (h c (by simp))
    · exact hrest

/-- The cards of one rank in front of lower ones add the bit of their rank to their suits. -/
theorem seenRanks_block {block : List Nat} (hrank : ∀ c ∈ block, g.rank c = r)
    (hsuits : (block.map g.suit).Pairwise (· > ·)) (hlower : ∀ c ∈ rest, g.rank c < r) :
    g.seenRanks (block ++ rest) s =
      (if s ∈ block.map g.suit then 2 ^ r else 0) + g.seenRanks rest s := by
  induction block with
  | nil => simp
  | cons c block ih =>
    rw [List.map_cons] at hsuits ⊢
    obtain ⟨hfirst, hothers⟩ := List.pairwise_cons.mp hsuits
    have ih := ih (fun d hd => hrank d (List.mem_cons_of_mem _ hd)) hothers
    rw [List.cons_append, seenRanks_cons, ih, hrank c (by simp)]
    by_cases hs : g.suit c = s
    · have hout : s ∉ block.map g.suit := by
        intro hmem
        have := hfirst s hmem
        omega
      have hlow : g.seenRanks rest s < 2 ^ r := seenRanks_lt hlower
      have hor := Nat.two_pow_add_eq_or_of_lt hlow 1
      rw [Nat.mul_one] at hor
      rw [if_pos hs, if_neg hout, Nat.zero_add, Nat.or_comm, ← hor, if_pos (by simp [hs])]
    · have hmem : s ∈ g.suit c :: block.map g.suit ↔ s ∈ block.map g.suit := by
        rw [List.mem_cons, or_iff_right (fun h => hs h.symm)]
      rw [if_neg hs]
      simp only [hmem]

/-- Blocks of cards of one rank each, with falling ranks and falling suits in a block. -/
def FallingBlocks (g : SGame) : List (List Nat) → Prop
  | [] => True
  | block :: blocks =>
    (∃ r, (∀ c ∈ block, g.rank c = r) ∧ ∀ c ∈ blocks.flatten, g.rank c < r) ∧
      (block.map g.suit).Pairwise (· > ·) ∧ FallingBlocks g blocks

theorem code_le_iff {x y : Nat} {p q : Prop} [Decidable p] [Decidable q] (hx : x < 2 ^ r) (hy : y < 2 ^ r) :
    (if q then 2 ^ r else 0) + y ≤ (if p then 2 ^ r else 0) + x ↔ (q → p) ∧ ((p ↔ q) → y ≤ x) := by
  by_cases hp : p <;> by_cases hq : q <;> simp [hp, hq] <;> omega

/-- The loop over the ranks passes exactly where suits of one group have falling codes. -/
theorem mapRanks_spec (hblocks : FallingBlocks g blocks) (hsuits : g.numSuits ≤ 4) (hvalid : ValidGroups g.numSuits sg)
    (k : Nat) (hk : 0 < k) :
    ∃ m, mapRanks g.numSuits (blocks.map (List.map g.suit)) ⟨sg, groupSizes g.numSuits sg, k⟩ = some m ∧
      m ≤ k * 6 ^ blocks.flatten.length ∧
      (m ≠ 0 ↔ ∀ s t, s < t → t < g.numSuits → groupOf sg s = groupOf sg t →
        g.seenRanks blocks.flatten t ≤ g.seenRanks blocks.flatten s) := by
  induction blocks generalizing sg k with
  | nil => exact ⟨k, rfl, by simp, by simp [seenRanks]; omega⟩
  | cons block blocks ih =>
    obtain ⟨⟨r, hrank, hlower⟩, hfall, hrest⟩ := hblocks
    have hlt : ∀ s ∈ block.map g.suit, s < g.numSuits := by
      intro s hs
      obtain ⟨c, -, rfl⟩ := List.mem_map.mp hs
      exact Nat.mod_lt _ g.suits_pos
    have hcode : ∀ s t, g.seenRanks (block ++ blocks.flatten) t ≤ g.seenRanks (block ++ blocks.flatten) s ↔
        (t ∈ block.map g.suit → s ∈ block.map g.suit) ∧
          ((s ∈ block.map g.suit ↔ t ∈ block.map g.suit) →
            g.seenRanks blocks.flatten t ≤ g.seenRanks blocks.flatten s) := by
      intro s t
      rw [seenRanks_block hrank hfall hlower, seenRanks_block hrank hfall hlower]
      exact code_le_iff (seenRanks_lt hlower) (seenRanks_lt hlower)
    rw [List.map_cons, mapRanks, List.flatten_cons]
    simp only [hcode]
    rcases mapGroups_spec hvalid g.suits_pos hsuits hfall hlt k with ⟨hlow, hmap⟩ | ⟨hlow, num, hnum, hbound, hmap⟩
    · rw [hmap]
      refine ⟨0, rfl, Nat.zero_le _, ?_⟩
      simp only [ne_eq, not_true_eq_false, false_iff]
      intro h
      have hfirst : lowestFirst g.numSuits sg (block.map g.suit) = true :=
        lowestFirst_iff.mpr fun s t hst htn hsame => (h s t hst htn hsame).1
      rw [hlow] at hfirst
      cases hfirst
    · rw [hmap]
      obtain ⟨m, hm, hle, hiff⟩ := ih hrest (refinedGroups_valid hsuits) (k * num) (Nat.mul_pos hk hnum)
      rw [lowestFirst_iff] at hlow
      refine ⟨m, hm, ?_, ?_⟩
      · rw [List.length_append, Nat.pow_add, ← Nat.mul_assoc]
        rw [List.length_map] at hbound
        exact hle.trans (Nat.mul_le_mul_right _ (Nat.mul_le_mul_left _ hbound))
      · rw [hiff]
        constructor
        · intro h s t hst htn hsame
          refine ⟨hlow s t hst htn hsame, ?_⟩
          intro hused
          exact h s t hst htn ((refinedGroups_eq_iff hsuits (by omega) htn).mpr ⟨hsame, hused⟩)
        · intro h s t hst htn hsame
          obtain ⟨hgroup, hused⟩ := (refinedGroups_eq_iff hsuits (by omega) htn).mp hsame
          exact (h s t hst htn hgroup).2 hused

theorem rankBlocks_flatten (cards : List Nat) : (g.rankBlocks cards).flatten = cards := by
  induction cards with
  | nil => rfl
  | cons c cards ih =>
    unfold rankBlocks
    split
    · rename_i d block blocks hblocks
      rw [hblocks] at ih
      split
      · rw [List.flatten_cons, List.cons_append, ← List.flatten_cons, ih]
      · rw [List.flatten_cons, ih]
        rfl
    · rw [List.flatten_cons, ih]
      rfl

theorem rankBlocks_ne_nil (cards : List Nat) : ∀ block ∈ g.rankBlocks cards, block ≠ [] := by
  induction cards with
  | nil => simp [rankBlocks]
  | cons c cards ih =>
    intro block hblock
    unfold rankBlocks at hblock
    split at hblock
    · rename_i d rest blocks hblocks
      rw [hblocks] at ih
      split at hblock
      · rcases List.mem_cons.mp hblock with rfl | hblock
        · simp
        · exact ih block (List.mem_cons_of_mem _ hblock)
      · rcases List.mem_cons.mp hblock with rfl | hblock
        · simp
        · exact ih block hblock
    · rcases List.mem_cons.mp hblock with rfl | hblock
      · simp
      · exact ih block hblock

theorem card_eq (c : Nat) : g.makeCard (g.rank c) (g.suit c) = c := Nat.div_add_mod' c g.numSuits

theorem suit_lt (c : Nat) : g.suit c < g.numSuits := Nat.mod_lt _ g.suits_pos

theorem rank_le_of_lt {d : Nat} (h : d < c) : g.rank d ≤ g.rank c := Nat.div_le_div_right h.le

theorem suit_lt_of_rank_eq {d : Nat} (h : d < c) (hrank : g.rank d = g.rank c) : g.suit d < g.suit c := by
  have hc := g.card_eq c
  have hd := g.card_eq d
  unfold makeCard at hc hd
  rw [hrank] at hd
  omega

/-- Falling cards are cut into blocks of falling ranks. -/
theorem fallingBlocks_rankBlocks (hfall : cards.Pairwise (· > ·)) : FallingBlocks g (g.rankBlocks cards) := by
  induction cards with
  | nil => trivial
  | cons c cards ih =>
    obtain ⟨hfirst, hothers⟩ := List.pairwise_cons.mp hfall
    have ih := ih hothers
    have hflat := rankBlocks_flatten (g := g) cards
    unfold rankBlocks
    split
    · rename_i d block blocks hblocks
      rw [hblocks] at ih hflat
      obtain ⟨⟨r, hrank, hlower⟩, hsuits, hrest⟩ := ih
      have hmem : ∀ x ∈ d :: block, x < c := by
        intro x hx
        refine hfirst x ?_
        rw [← hflat, List.flatten_cons]
        exact List.mem_append_left _ hx
      split
      · rename_i hsame
        have hr : g.rank c = r := by rw [← hsame, hrank d (by simp)]
        refine ⟨⟨r, ?_, hlower⟩, ?_, hrest⟩
        · intro x hx
          rcases List.mem_cons.mp hx with rfl | hx
          · exact hr
          · exact hrank x hx
        · rw [List.map_cons]
          refine List.pairwise_cons.mpr ⟨?_, hsuits⟩
          intro s hs
          obtain ⟨x, hx, rfl⟩ := List.mem_map.mp hs
          exact suit_lt_of_rank_eq (hmem x hx) (by rw [hrank x hx, hr])
      · rename_i hdiff
        refine ⟨⟨g.rank c, by simp, ?_⟩, by simp, ⟨r, hrank, hlower⟩, hsuits, hrest⟩
        have hd : g.rank d < g.rank c := lt_of_le_of_ne (rank_le_of_lt (hmem d (by simp))) hdiff
        intro x hx
        rw [List.flatten_cons] at hx
        rcases List.mem_append.mp hx with hx | hx
        · rw [hrank x hx, ← hrank d (by simp)]
          exact hd
        · have := hlower x hx
          rw [← hrank d (by simp)] at this
          omega
    · rename_i hnone
      cases hblocks : g.rankBlocks cards with
      | nil => exact ⟨⟨g.rank c, by simp, by simp⟩, by simp, trivial⟩
      | cons block blocks =>
        cases block with
        | nil => exact absurd rfl (rankBlocks_ne_nil cards [] (by rw [hblocks]; simp))
        | cons d block => exact absurd hblocks (hnone d block blocks)

/-- A set of falling cards is listed exactly where suits of one group have falling codes. -/
theorem numMappings_spec (hsuits : g.numSuits ≤ 4) (hvalid : ValidGroups g.numSuits sg)
    (hfall : cards.Pairwise (· > ·)) :
    ∃ m, g.numMappings cards sg = some m ∧ m ≤ 6 ^ cards.length ∧
      (m ≠ 0 ↔ ∀ s t, s < t → t < g.numSuits → groupOf sg s = groupOf sg t →
        g.seenRanks cards t ≤ g.seenRanks cards s) := by
  have hspec := mapRanks_spec (fallingBlocks_rankBlocks hfall) hsuits hvalid 1 Nat.one_pos
  rw [rankBlocks_flatten, Nat.one_mul] at hspec
  rw [numMappings, if_neg (by omega)]
  exact hspec

theorem updateSuitGroups_eq_iff (hsuits : g.numSuits ≤ 4) (hs : s < g.numSuits) (ht : t < g.numSuits) :
    groupOf (g.updateSuitGroups cards sg) s = groupOf (g.updateSuitGroups cards sg) t ↔
      groupOf sg s = groupOf sg t ∧ g.seenRanks cards s = g.seenRanks cards t := by
  unfold updateSuitGroups
  rw [suitClasses_eq_iff (by simp) (by simp; tauto) (by simp; intros; simp_all) hsuits hs ht]
  simp

theorem updateSuitGroups_valid (hsuits : g.numSuits ≤ 4) : ValidGroups g.numSuits (g.updateSuitGroups cards sg) := by
  apply validGroups_suitClasses (by simp) (by simp; tauto) (by simp; intros; simp_all) hsuits

end

end SGame

section

variable {previous cards : List Nat} {n bound : Nat}

theorem mem_fallingCards :
    cards ∈ fallingCards previous n bound ↔
      cards.length = n ∧ cards.Pairwise (· > ·) ∧ ∀ c ∈ cards, c < bound ∧ c ∉ previous := by
  induction n generalizing cards bound with
  | zero =>
    rw [fallingCards, List.mem_singleton]
    constructor
    · rintro rfl
      simp
    · intro h
      exact List.length_eq_zero_iff.mp h.1
  | succ n ih =>
    rw [fallingCards, List.mem_flatMap]
    constructor
    · rintro ⟨c, hc, hcards⟩
      obtain ⟨rest, hrest, rfl⟩ := List.mem_map.mp hcards
      obtain ⟨hlength, hfall, hbelow⟩ := ih.mp hrest
      have hc := List.mem_filter.mp hc
      have hcb := List.mem_range.mp hc.1
      refine ⟨by rw [List.length_cons, hlength], List.pairwise_cons.mpr ⟨fun d hd => (hbelow d hd).1, hfall⟩, ?_⟩
      intro d hd
      rcases List.mem_cons.mp hd with rfl | hd
      · exact ⟨hcb, by simpa using hc.2⟩
      · exact ⟨by have := (hbelow d hd).1; omega, (hbelow d hd).2⟩
    · rintro ⟨hlength, hfall, hbelow⟩
      cases cards with
      | nil => simp at hlength
      | cons c rest =>
        obtain ⟨hfirst, hothers⟩ := List.pairwise_cons.mp hfall
        refine ⟨c, List.mem_filter.mpr ⟨List.mem_range.mpr (hbelow c (by simp)).1, by
          simpa using (hbelow c (by simp)).2⟩, List.mem_map.mpr ⟨rest, ih.mpr ⟨by simpa using hlength, hothers, ?_⟩, rfl⟩⟩
        intro d hd
        exact ⟨hfirst d hd, (hbelow d (List.mem_cons_of_mem _ hd)).2⟩

theorem fallingCards_nodup : (fallingCards previous n bound).Nodup := by
  induction n generalizing bound with
  | zero => simp [fallingCards]
  | succ n ih =>
    rw [fallingCards, List.nodup_flatMap]
    refine ⟨?_, ?_⟩
    · intro c _
      exact ih.map (by intro a b h; simpa using h)
    · refine (List.nodup_range.filter _).imp ?_
      intro c d hcd cards hc hd
      obtain ⟨rest, -, rfl⟩ := List.mem_map.mp hc
      obtain ⟨rest', -, heq⟩ := List.mem_map.mp hd
      exact hcd (List.cons.inj heq).1.symm

theorem fallingCards_succ :
    fallingCards previous (n + 1) (bound + 1) =
      fallingCards previous (n + 1) bound ++
        if bound ∈ previous then [] else (fallingCards previous n bound).map fun cards => bound :: cards := by
  simp only [fallingCards, List.range_succ, List.filter_append, List.flatMap_append]
  congr 1
  by_cases h : bound ∈ previous <;> simp [h]

/-- The number of falling lists is a binomial coefficient. -/
theorem fallingCards_length :
    (fallingCards previous n bound).length = ((List.range bound).filter fun c => c ∉ previous).length.choose n := by
  induction n generalizing bound with
  | zero => simp [fallingCards]
  | succ n ih =>
    induction bound with
    | zero => simp [fallingCards]
    | succ bound ihb =>
      rw [fallingCards_succ, List.length_append, ihb, List.range_succ, List.filter_append, List.length_append]
      by_cases h : bound ∈ previous
      · simp [h]
      · have hone : ([bound].filter fun c => c ∉ previous).length = 1 := by simp [h]
        rw [hone, Nat.choose_succ_succ, if_neg h, List.length_map, ih, Nat.add_comm]

theorem range_filter_length (hnodup : previous.Nodup) (hlt : ∀ c ∈ previous, c < bound) :
    ((List.range bound).filter fun c => c ∉ previous).length = bound - previous.length := by
  have hperm : ((List.range bound).filter fun c => c ∈ previous).Perm previous := by
    apply (List.perm_ext_iff_of_nodup (List.nodup_range.filter _) hnodup).mpr
    intro c
    simp only [List.mem_filter, List.mem_range, decide_eq_true_eq]
    exact ⟨fun h => h.2, fun h => ⟨hlt c h, h⟩⟩
  have hsum := List.length_eq_length_filter_add (l := List.range bound) fun c => decide (c ∈ previous)
  rw [List.length_range, hperm.length_eq] at hsum
  have hnot : (List.range bound).filter (fun c => !decide (c ∈ previous)) =
      (List.range bound).filter fun c => c ∉ previous := by
    congr 1
    funext c
    simp
  rw [hnot] at hsum
  omega

theorem numRaw_eq (n numRemaining : Nat) (hn : n = 1 ∨ n = 2 ∨ n = 3) :
    numRaw numRemaining n = some (numRemaining.choose n) := by
  rcases hn with rfl | rfl | rfl
  · simp [numRaw]
  · rw [numRaw, Nat.choose_two_right]
  · have hfall : numRemaining.descFactorial 3 = numRemaining * (numRemaining - 1) * (numRemaining - 2) := by
      simp only [Nat.descFactorial, Nat.sub_zero, Nat.mul_one]
      rw [Nat.mul_comm, Nat.mul_comm (numRemaining - 1)]
    rw [numRaw, Nat.choose_eq_descFactorial_div_factorial, hfall]
    rfl

end

namespace SGame

section

variable {g : SGame} {n : Nat} {previous : List Nat} {sg : SuitGroups}

/-- The entry of a set of cards in the list that `TypicalCards` makes. -/
def entryOf (g : SGame) (sg : SuitGroups) (cards : List Nat) : TypicalEntry :=
  ⟨cards, (g.numMappings cards sg).getD 0, g.updateSuitGroups cards sg⟩

theorem mapM_eq_some_map {α β : Type} {f : α → Option β} {h : α → β} {l : List α} (hf : ∀ x ∈ l, f x = some (h x)) :
    l.mapM f = some (l.map h) := by
  induction l with
  | nil => rfl
  | cons x l ih =>
    rw [List.mapM_cons, hf x (by simp), ih fun y hy => hf y (List.mem_cons_of_mem _ hy)]
    rfl

/-- The constructor comes through for one to three cards, and lists all of them. -/
theorem typicalCards_eq (hsuits : g.numSuits ≤ 4) (hvalid : ValidGroups g.numSuits sg) (hnodup : previous.Nodup)
    (hlt : ∀ c ∈ previous, c < g.numCardsInDeck) (hn : n = 1 ∨ n = 2 ∨ n = 3) :
    g.typicalCards n previous sg = some ((fallingCards previous n g.numCardsInDeck).map (g.entryOf sg)) := by
  have hlength : (fallingCards previous n g.numCardsInDeck).length =
      (g.numCardsInDeck - previous.length).choose n := by
    rw [fallingCards_length, range_filter_length hnodup hlt]
  unfold typicalCards
  rw [numRaw_eq n _ hn, Option.bind_some]
  dsimp only
  rw [if_neg (not_not.mpr hlength)]
  apply mapM_eq_some_map
  intro cards hcards
  obtain ⟨m, hm, -, -⟩ := numMappings_spec hsuits hvalid (mem_fallingCards.mp hcards).2.1
  rw [entryOf, hm]
  rfl

theorem typicalCards_none (hn : ¬(n = 1 ∨ n = 2 ∨ n = 3)) : g.typicalCards n previous sg = none := by
  have hraw : numRaw (g.numCardsInDeck - previous.length) n = none := by
    unfold numRaw
    split
    · simp at hn
    · simp at hn
    · simp at hn
    · rfl
  rw [typicalCards, hraw]
  rfl

/-- A listed set of cards counts as a board exactly where suits of one group have falling codes. -/
theorem entryOf_variants (hsuits : g.numSuits ≤ 4) (hvalid : ValidGroups g.numSuits sg) {cards : List Nat}
    (hfall : cards.Pairwise (· > ·)) (hlength : cards.length ≤ 3) :
    ((g.entryOf sg cards).numMappings ≠ 0 ↔ (g.entryOf sg cards).numVariants ≠ 0) ∧
      ((g.entryOf sg cards).numVariants ≠ 0 ↔ ∀ s t, s < t → t < g.numSuits → groupOf sg s = groupOf sg t →
        g.seenRanks cards t ≤ g.seenRanks cards s) := by
  obtain ⟨m, hm, hle, hiff⟩ := numMappings_spec hsuits hvalid hfall
  have hpow : 6 ^ cards.length ≤ 6 ^ 3 := Nat.pow_le_pow_right (by omega) hlength
  have hsmall : m < 256 := by omega
  have hnum : (g.entryOf sg cards).numMappings = m := by
    rw [entryOf, hm]
    rfl
  have hvariants : (g.entryOf sg cards).numVariants = m := by
    rw [TypicalEntry.numVariants, hnum, Nat.mod_eq_of_lt hsmall]
  rw [hnum, hvariants]
  exact ⟨Iff.rfl, hiff⟩

end

end SGame

end MasterAI
