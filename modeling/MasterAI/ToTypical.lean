import MasterAI.MappingOrbits

namespace MasterAI

/-- A suit is named by the first one that was like it and has the same ranks in use. -/
def regroupSuit (sg : SuitGroups) (rankUsed : Nat → Nat) (nsg : SuitGroups) (m : Nat) : SuitGroups :=
  nsg.set m (((List.range m).find? fun n => (groupOf sg n = groupOf sg m ∧ rankUsed n = rankUsed m) ∨
    (groupOf nsg n = groupOf nsg m ∧ rankUsed n = rankUsed m)).getD m)

/-- The groups after a card; the word is changed while it is read. -/
def regroup (numSuits : Nat) (sg : SuitGroups) (rankUsed : Nat → Nat) (nsg : SuitGroups) : SuitGroups :=
  (List.range numSuits).foldl (regroupSuit sg rankUsed) nsg

/-- The order of `ToTypical`; nothing where the program exits. -/
def sortTypical : List Nat → Option (List Nat)
  | [c0] => some [c0]
  | [c0, c1] => if c0 < c1 then some [c1, c0] else some [c0, c1]
  | [c0, c1, c2] =>
    if c0 ≥ c1 ∧ c0 ≥ c2 then
      if c1 ≥ c2 then some [c0, c1, c2] else some [c0, c2, c1]
    else if c1 ≥ c0 ∧ c1 ≥ c2 then
      if c0 ≥ c2 then some [c1, c0, c2] else some [c1, c2, c0]
    else if c0 ≥ c1 then some [c2, c0, c1]
    else some [c2, c1, c0]
  | _ => none

namespace SGame

variable (g : SGame)

/-- A later card when two suits change places. -/
def changeSuit (oldSuit newSuit c : Nat) : Nat :=
  if g.suit c = oldSuit then g.makeCard (g.rank c) newSuit
  else if g.suit c = newSuit then g.makeCard (g.rank c) oldSuit
  else c

/-- The loop of `ToTypical2` for the cards that are left, with whether a suit is changed. -/
def typicalFrom (sg : SuitGroups) : Nat → List Nat → SuitGroups → (Nat → Nat) → List Nat × Bool
  | left + 1, c :: cards, nsg, rankUsed =>
    let oldSuit := g.suit c
    let newSuit := groupOf nsg oldSuit
    let rankUsed := Function.update rankUsed newSuit (rankUsed newSuit ||| 2 ^ g.rank c)
    let nsg' := regroup g.numSuits sg rankUsed nsg
    if newSuit ≠ oldSuit then
      (g.makeCard (g.rank c) newSuit :: (typicalFrom sg left (cards.map (g.changeSuit oldSuit newSuit)) nsg' rankUsed).1, true)
    else
      let later := typicalFrom sg left cards nsg' rankUsed
      (c :: later.1, later.2)
  | _, _, _, _ => ([], false)

def toTypical2 (cards : List Nat) (sg : SuitGroups) : List Nat × Bool :=
  g.typicalFrom sg cards.length cards sg fun _ => 0

/-- `ToTypical`; nothing where the program exits. -/
def toTypical (cards : List Nat) (sg : SuitGroups) : Option (List Nat) :=
  let canonCards := g.toTypical2 cards sg
  if canonCards.2 then sortTypical canonCards.1 else some canonCards.1

end SGame

theorem sortTypical_eq (cards : List Nat) : sortTypical cards = sortCards cards := by
  rcases cards with _ | ⟨c0, _ | ⟨c1, _ | ⟨c2, _ | ⟨c3, cards⟩⟩⟩⟩
  · rfl
  · rfl
  · rfl
  · simp only [sortTypical, sortCards]
    split_ifs <;> grind
  · rfl

section

variable {n k t : Nat} {sg nsg : SuitGroups} {rankUsed : Nat → Nat}

theorem groupOf_set {x : Nat} (hk : k < nsg.length) : groupOf (nsg.set k x) t = if t = k then x else groupOf nsg t := by
  unfold groupOf
  by_cases ht : t = k
  · rw [if_pos ht, ht, List.getD_eq_getElem _ _ (by rwa [List.length_set]), List.getElem_set_self]
  · rw [if_neg ht, List.getD_eq_getElem?_getD, List.getD_eq_getElem?_getD, List.getElem?_set_ne (Ne.symm ht)]

/-- The loop over the suits has named those before a suit as the classes are. -/
theorem regroupSuit_loop (hvalid : ValidGroups n nsg) (hkeeps : ∀ t < n, groupOf sg (groupOf nsg t) = groupOf sg t) (hn : n ≤ 4)
    {classes : SuitGroups} (hclasses : (suitClasses n fun s t => groupOf sg s = groupOf sg t ∧ rankUsed s = rankUsed t) = classes)
    (hk : k ≤ n) :
    ((List.range k).foldl (regroupSuit sg rankUsed) nsg).length = 4 ∧
      ∀ t, groupOf ((List.range k).foldl (regroupSuit sg rankUsed) nsg) t =
        if t < k then groupOf classes t else groupOf nsg t := by
  have hclass : ∀ t < n, groupOf sg (groupOf classes t) = groupOf sg t := by
    intro t ht
    have hsame := (@suitClasses_first n t (fun s t => decide (groupOf sg s = groupOf sg t ∧ rankUsed s = rankUsed t))
      (by simp) hn ht).2.1
    rw [decide_eq_true_eq, hclasses] at hsame
    exact hsame.1
  induction k with
  | zero => exact ⟨hvalid.1, fun t => by simp⟩
  | succ k ih =>
    obtain ⟨hlen, hget⟩ := ih (by omega)
    rw [List.range_succ, List.foldl_append, List.foldl_cons, List.foldl_nil]
    generalize (List.range k).foldl (regroupSuit sg rankUsed) nsg = out at hlen hget
    refine ⟨by rw [regroupSuit, List.length_set, hlen], fun t => ?_⟩
    have hfind : ((List.range k).find? fun n => decide ((groupOf sg n = groupOf sg k ∧ rankUsed n = rankUsed k) ∨
        (groupOf out n = groupOf out k ∧ rankUsed n = rankUsed k))) =
        (List.range k).find? fun s => decide (groupOf sg s = groupOf sg k ∧ rankUsed s = rankUsed k) := by
      refine List.find?_congr fun s hs => decide_eq_decide.mpr (or_iff_left_of_imp ?_)
      rintro ⟨hsame, hused⟩
      have hsk := List.mem_range.mp hs
      rw [hget s, hget k, if_pos hsk, if_neg (lt_irrefl k)] at hsame
      rw [← hclass s (by omega), hsame, hkeeps k (by omega)]
      exact ⟨rfl, hused⟩
    rw [regroupSuit, hfind, groupOf_set (by omega), hget t]
    by_cases ht : t = k
    · rw [if_pos ht, ht, if_pos (Nat.lt_succ_self k), ← hclasses, groupOf_suitClasses (by omega), if_pos (by omega)]
    · by_cases htk : t < k
      · rw [if_neg ht, if_pos htk, if_pos (by omega)]
      · rw [if_neg ht, if_neg htk, if_neg (by omega)]

/-- Reading the word while it is changed names the same suits. -/
theorem regroup_eq (hvalid : ValidGroups n nsg) (hkeeps : ∀ t < n, groupOf sg (groupOf nsg t) = groupOf sg t) (hn : n ≤ 4) :
    regroup n sg rankUsed nsg = suitClasses n fun s t => groupOf sg s = groupOf sg t ∧ rankUsed s = rankUsed t := by
  obtain ⟨hlen, hget⟩ := regroupSuit_loop hvalid hkeeps hn rfl le_rfl
  refine groups_ext hlen (by simp [suitClasses]) fun t ht => ?_
  rw [regroup, hget t]
  split
  next => rfl
  next htn => rw [hvalid.2.2 t ht (by omega), groupOf_suitClasses ht, if_neg htn]

end

section

variable {r a b : Nat}

theorem two_pow_dvd_or (ha : 2 ^ r ∣ a) (hb : 2 ^ r ∣ b) : 2 ^ r ∣ a ||| b := by
  obtain ⟨a, rfl⟩ := ha
  obtain ⟨b, rfl⟩ := hb
  refine ⟨a ||| b, ?_⟩
  have hshift : (a ||| b) <<< r = a <<< r ||| b <<< r := Nat.shiftLeft_or_distrib
  simp only [Nat.shiftLeft_eq] at hshift
  rw [Nat.mul_comm, Nat.mul_comm (2 ^ r), Nat.mul_comm (2 ^ r), hshift]

theorem or_two_pow_le (ha : 2 ^ r ∣ a) : a ||| 2 ^ r ≤ a + 2 ^ r := by
  obtain ⟨a, rfl⟩ := ha
  obtain ⟨b, rfl | rfl⟩ := Nat.even_or_odd' a
  · have hadd := Nat.two_pow_add_eq_or_of_lt (Nat.pow_lt_pow_right Nat.one_lt_two (Nat.lt_succ_self r)) b
    rw [Nat.pow_succ, Nat.mul_assoc] at hadd
    exact hadd.ge
  · have hadd := Nat.two_pow_add_eq_or_of_lt (Nat.pow_lt_pow_right Nat.one_lt_two (Nat.lt_succ_self r)) b
    rw [Nat.pow_succ, Nat.mul_assoc] at hadd
    rw [Nat.mul_add, Nat.mul_one, hadd, Nat.or_assoc, Nat.or_self]
    exact Nat.le_add_right _ _

/-- The next rank keeps numbers that differ in the ranks above in order. -/
theorem or_two_pow_le_of_lt (ha : 2 ^ r ∣ a) (hb : 2 ^ r ∣ b) (h : a < b) : a ||| 2 ^ r ≤ b := by
  refine (or_two_pow_le ha).trans ?_
  obtain ⟨a, rfl⟩ := ha
  obtain ⟨b, rfl⟩ := hb
  have hlt := Nat.lt_of_mul_lt_mul_left h
  rw [← Nat.mul_succ]
  exact Nat.mul_le_mul_left _ hlt

end

namespace SGame

section

variable {g : SGame} {sg nsg : SuitGroups} {done rest cards : List Nat} {oldSuit newSuit s t c r left : Nat}
  {rankUsed : Nat → Nat}

/-- Two suits change places. -/
def swapSuits (oldSuit newSuit s : Nat) : Nat := if s = oldSuit then newSuit else if s = newSuit then oldSuit else s

theorem swapSuits_self (s t : Nat) : swapSuits s s t = t := by
  unfold swapSuits
  split_ifs <;> omega

theorem suitPerm_swapSuits (hold : oldSuit < g.numSuits) (hnew : newSuit < g.numSuits) :
    g.SuitPerm (swapSuits oldSuit newSuit) := by
  unfold swapSuits
  refine ⟨fun s hs => ?_, fun s _ t _ heq => ?_⟩
  · split_ifs <;> assumption
  · split_ifs at heq <;> omega

theorem changeSuit_eq (c : Nat) : g.changeSuit oldSuit newSuit c = g.mapSuit (swapSuits oldSuit newSuit) c := by
  unfold changeSuit mapSuit swapSuits
  split_ifs
  · rfl
  · rfl
  · exact (card_eq c).symm

theorem mapSuit_swapSuits_self (s c : Nat) : g.mapSuit (swapSuits s s) c = c := by
  rw [mapSuit, swapSuits_self, card_eq]

/-- A card that keeps its suit changes places with itself. -/
theorem typicalFrom_cons (sg : SuitGroups) (left c : Nat) (cards : List Nat) (nsg : SuitGroups) (rankUsed : Nat → Nat) :
    (g.typicalFrom sg (left + 1) (c :: cards) nsg rankUsed).1 =
      let m := swapSuits (g.suit c) (groupOf nsg (g.suit c))
      let rankUsed := Function.update rankUsed (groupOf nsg (g.suit c)) (rankUsed (groupOf nsg (g.suit c)) ||| 2 ^ g.rank c)
      g.mapSuit m c :: (g.typicalFrom sg left (cards.map (g.mapSuit m)) (regroup g.numSuits sg rankUsed nsg) rankUsed).1 := by
  rw [typicalFrom]
  dsimp only
  by_cases hsame : groupOf nsg (g.suit c) = g.suit c
  · have hmap : cards.map (g.mapSuit (swapSuits (g.suit c) (g.suit c))) = cards := by
      rw [List.map_congr_left fun d _ => mapSuit_swapSuits_self (g.suit c) d, List.map_id']
    rw [if_neg (not_not.mpr hsame), hsame, hmap, mapSuit_swapSuits_self]
  · have hmap : cards.map (g.changeSuit (g.suit c) (groupOf nsg (g.suit c))) =
        cards.map (g.mapSuit (swapSuits (g.suit c) (groupOf nsg (g.suit c)))) :=
      List.map_congr_left fun d _ => changeSuit_eq d
    rw [if_pos hsame, hmap, mapSuit, swapSuits, if_pos rfl]

theorem typicalFrom_unchanged (h : (g.typicalFrom sg cards.length cards nsg rankUsed).2 = false) :
    (g.typicalFrom sg cards.length cards nsg rankUsed).1 = cards := by
  induction cards generalizing nsg rankUsed with
  | nil => rfl
  | cons c cards ih =>
    rw [List.length_cons, typicalFrom] at h ⊢
    dsimp only at h ⊢
    by_cases hsame : groupOf nsg (g.suit c) = g.suit c
    · rw [if_neg (not_not.mpr hsame)] at h ⊢
      rw [ih h]
    · rw [if_pos hsame] at h
      cases h

theorem seenRanks_dvd (h : ∀ c ∈ cards, r ≤ g.rank c) : 2 ^ r ∣ g.seenRanks cards s := by
  induction cards with
  | nil => exact Nat.dvd_zero _
  | cons c cards ih =>
    have hrest := ih fun d hd => h d (List.mem_cons_of_mem _ hd)
    rw [seenRanks_cons]
    split
    · exact two_pow_dvd_or hrest (Nat.pow_dvd_pow 2 (h c (by simp)))
    · exact hrest

theorem seenRanks_snoc :
    g.seenRanks (done ++ [c]) s = if g.suit c = s then g.seenRanks done s ||| 2 ^ g.rank c else g.seenRanks done s := by
  rw [seenRanks_perm (List.perm_append_singleton c done), seenRanks_cons]

/-- What the loop of `ToTypical2` has made of the cards before and what is left. -/
structure Renaming (g : SGame) (sg : SuitGroups) (done rest : List Nat) (nsg : SuitGroups) (rankUsed : Nat → Nat) : Prop where
  groups : nsg = g.updateSuitGroups done sg
  used : ∀ s < g.numSuits, rankUsed s = g.seenRanks done s
  nodup : (done ++ rest).Nodup
  ranks : ((done ++ rest).map g.rank).Pairwise (· ≥ ·)
  falls : FallingLabels (g.groupLabels sg) (g.suitCodes done)

/-- The new suit of a card is the first of its group with the same cards. -/
theorem Renaming.first (h : g.Renaming sg done rest nsg rankUsed) (hsuits : g.numSuits ≤ 4) (hs : s < g.numSuits) :
    groupOf nsg s ≤ s ∧ groupOf sg (groupOf nsg s) = groupOf sg s ∧
      g.seenRanks done (groupOf nsg s) = g.seenRanks done s ∧
      ∀ t < groupOf nsg s, groupOf sg t = groupOf sg s → g.seenRanks done t ≠ g.seenRanks done s := by
  obtain ⟨hle, hsame, hfirst⟩ := @suitClasses_first g.numSuits s
    (fun s t => decide (groupOf sg s = groupOf sg t ∧ g.seenRanks done s = g.seenRanks done t)) (by simp) hsuits hs
  rw [h.groups]
  rw [decide_eq_true_eq] at hsame
  refine ⟨hle, hsame.1, hsame.2, fun t ht hgroup hseen => ?_⟩
  have hout := hfirst t ht
  rw [decide_eq_false_iff_not] at hout
  exact hout ⟨hgroup, hseen⟩

theorem Renaming.keeps (h : g.Renaming sg done rest nsg rankUsed) (hsuits : g.numSuits ≤ 4) (hs : s < g.numSuits) :
    g.KeepsGroups sg (swapSuits s (groupOf nsg s)) ∧
      ∀ t, g.seenRanks done (swapSuits s (groupOf nsg s) t) = g.seenRanks done t := by
  obtain ⟨hle, hgroup, hseen, _⟩ := h.first hsuits hs
  refine ⟨⟨suitPerm_swapSuits hs (by omega), fun t _ => ?_⟩, fun t => ?_⟩
  · unfold swapSuits
    split_ifs with hold hnew
    · rw [hold, hgroup]
    · rw [hnew, hgroup]
    · rfl
  · unfold swapSuits
    split_ifs with hold hnew
    · rw [hold, hseen]
    · rw [hnew, hseen]
    · rfl

/-- The next rank of the first suit with some cards leaves the codes of each group falling. -/
theorem Renaming.falls_next (h : g.Renaming sg done (c :: rest) nsg rankUsed) (hsuits : g.numSuits ≤ 4) :
    FallingLabels (g.groupLabels sg)
      (g.suitCodes (done ++ [g.mapSuit (swapSuits (g.suit c) (groupOf nsg (g.suit c))) c])) := by
  have hc : g.suit c < g.numSuits := suit_lt c
  obtain ⟨hle, hgroup, hseen, hbefore⟩ := h.first hsuits hc
  have hperm := (h.keeps hsuits hc).1.perm
  have hlast : ∀ s, g.seenRanks (done ++ [g.mapSuit (swapSuits (g.suit c) (groupOf nsg (g.suit c))) c]) s =
      if groupOf nsg (g.suit c) = s then g.seenRanks done s ||| 2 ^ g.rank c else g.seenRanks done s := by
    intro s
    rw [seenRanks_snoc, hperm.suit_mapSuit, hperm.rank_mapSuit, swapSuits, if_pos rfl]
  have hranks : ∀ d ∈ done, g.rank c ≤ g.rank d := by
    intro d hd
    have hpairs := h.ranks
    rw [List.map_append, List.pairwise_append] at hpairs
    exact hpairs.2.2 _ (List.mem_map_of_mem hd) _ (by simp)
  intro i j hij hlabel
  have hfalls := h.falls i j hij hlabel
  unfold suitCodes at hfalls ⊢
  rw [hlast, hlast]
  split_ifs with hj hi hi
  · exact absurd (hi.symm.trans hj) (Nat.ne_of_lt hij)
  · refine or_two_pow_le_of_lt (seenRanks_dvd hranks) (seenRanks_dvd hranks) (lt_of_le_of_ne hfalls fun heq => ?_)
    refine hbefore i (by omega) ?_ ?_
    · exact hlabel.trans ((congrArg (groupOf sg) hj.symm).trans hgroup)
    · rw [← heq, ← hj, hseen]
  · exact hfalls.trans Nat.left_le_or
  · exact hfalls

/-- A card takes the first suit of its class and the cards behind it are renamed. -/
theorem Renaming.next (h : g.Renaming sg done (c :: rest) nsg rankUsed) (hsuits : g.numSuits ≤ 4) {m : Nat → Nat}
    (hm : m = swapSuits (g.suit c) (groupOf nsg (g.suit c))) {rankUsed' : Nat → Nat}
    (hused : rankUsed' = Function.update rankUsed (groupOf nsg (g.suit c)) (rankUsed (groupOf nsg (g.suit c)) ||| 2 ^ g.rank c)) :
    (done ++ [g.mapSuit m c] ++ rest.map (g.mapSuit m)).Perm ((done ++ c :: rest).map (g.mapSuit m)) ∧
      g.Renaming sg (done ++ [g.mapSuit m c]) (rest.map (g.mapSuit m)) (regroup g.numSuits sg rankUsed' nsg) rankUsed' := by
  have hc : g.suit c < g.numSuits := suit_lt c
  obtain ⟨hkeeps, hfixes⟩ := h.keeps hsuits hc
  obtain ⟨hle, _⟩ := h.first hsuits hc
  have hfalls := h.falls_next hsuits
  rw [← hm] at hkeeps hfixes hfalls
  have hdone : done.Nodup := (List.nodup_append.mp h.nodup).1
  have hsame : done.Perm (done.map (g.mapSuit m)) :=
    (List.perm_ext_iff_of_nodup hdone (hkeeps.perm.nodup_map hdone)).mpr
      (hkeeps.perm.fixes_iff.mpr fun s _ => hfixes s)
  have hall : (done ++ [g.mapSuit m c] ++ rest.map (g.mapSuit m)).Perm ((done ++ c :: rest).map (g.mapSuit m)) := by
    rw [List.append_assoc, List.map_append]
    exact hsame.append_right _
  have hseen : ∀ s < g.numSuits, rankUsed' s = g.seenRanks (done ++ [g.mapSuit m c]) s := by
    intro s hs
    rw [seenRanks_snoc, hkeeps.perm.suit_mapSuit, hkeeps.perm.rank_mapSuit, hm, swapSuits, if_pos rfl, hused]
    by_cases hnew : s = groupOf nsg (g.suit c)
    · rw [hnew, Function.update_self, if_pos rfl, h.used _ (by omega)]
    · rw [Function.update_of_ne hnew, if_neg (Ne.symm hnew), h.used s hs]
  refine ⟨hall, ?_, hseen, hall.nodup_iff.mpr (hkeeps.perm.nodup_map h.nodup), ?_, hfalls⟩
  · have hvalid : ValidGroups g.numSuits nsg := h.groups ▸ updateSuitGroups_valid hsuits
    rw [regroup_eq hvalid (fun t ht => (h.first hsuits ht).2.1) hsuits]
    refine suitClasses_congr fun s hs t ht => decide_eq_decide.mpr ?_
    rw [hseen s hs, hseen t ht]
  · have hrank : (done ++ [g.mapSuit m c] ++ rest.map (g.mapSuit m)).map g.rank = (done ++ c :: rest).map g.rank := by
      rw [List.append_assoc, List.singleton_append, ← List.map_cons, List.map_append, List.map_append, List.map_map]
      exact congrArg _ (List.map_congr_left fun d _ => hkeeps.perm.rank_mapSuit d)
    rw [hrank]
    exact h.ranks

theorem KeepsGroups.comp {m m' : Nat → Nat} (hm : g.KeepsGroups sg m) (hm' : g.KeepsGroups sg m') :
    g.KeepsGroups sg fun s => m' (m s) :=
  ⟨hm.perm.comp hm'.perm, fun s hs => (hm'.keeps _ (hm.perm.lt s hs)).trans (hm.keeps s hs)⟩

/-- `ToTypical2` renames the suits of each group so that their codes fall. -/
theorem Renaming.typicalFrom (h : g.Renaming sg done cards nsg rankUsed) (hsuits : g.numSuits ≤ 4) :
    ∃ m, g.KeepsGroups sg m ∧
      (done ++ (g.typicalFrom sg cards.length cards nsg rankUsed).1).Perm ((done ++ cards).map (g.mapSuit m)) ∧
      FallingLabels (g.groupLabels sg) (g.suitCodes (done ++ (g.typicalFrom sg cards.length cards nsg rankUsed).1)) := by
  generalize hleft : cards.length = left
  induction left generalizing done cards nsg rankUsed with
  | zero =>
    obtain rfl := List.length_eq_zero_iff.mp hleft
    refine ⟨id, ⟨⟨fun s hs => hs, fun s _ t _ heq => heq⟩, fun s _ => rfl⟩, ?_, ?_⟩
    · have hmap : (done ++ []).map (g.mapSuit id) = done ++ [] :=
        (List.map_congr_left fun d _ => card_eq d).trans (List.map_id' _)
      rw [hmap]
      exact List.Perm.refl _
    · change FallingLabels _ (g.suitCodes (done ++ []))
      rw [List.append_nil]
      exact h.falls
  | succ left ih =>
    obtain ⟨c, rest, rfl⟩ := List.exists_cons_of_length_eq_add_one hleft
    obtain ⟨hall, hnext⟩ := h.next hsuits rfl rfl
    obtain ⟨m, hm, hperm, hfalls⟩ := ih hnext (by rw [List.length_map]; exact Nat.succ.inj hleft)
    have hfirst := (h.keeps hsuits (suit_lt c)).1
    rw [typicalFrom_cons]
    dsimp only
    have hcomp : ((done ++ c :: rest).map (g.mapSuit (swapSuits (g.suit c) (groupOf nsg (g.suit c))))).map (g.mapSuit m) =
        (done ++ c :: rest).map (g.mapSuit fun s => m (swapSuits (g.suit c) (groupOf nsg (g.suit c)) s)) := by
      rw [List.map_map]
      exact List.map_congr_left fun d _ => hfirst.perm.mapSuit_mapSuit m d
    refine ⟨_, hfirst.comp hm, ?_, ?_⟩
    · rw [← hcomp]
      refine List.Perm.trans ?_ (hall.map _)
      rwa [List.append_assoc, List.singleton_append] at hperm
    · rwa [List.append_assoc, List.singleton_append] at hfalls

theorem Renaming.root (hvalid : ValidGroups g.numSuits sg) (hsuits : g.numSuits ≤ 4) (hfall : cards.Pairwise (· > ·)) :
    g.Renaming sg [] cards sg fun _ => 0 := by
  refine ⟨(updateSuitGroups_nil hvalid hsuits).symm, fun _ _ => rfl, ?_, ?_, fun _ _ _ _ => le_rfl⟩
  · exact hfall.imp fun hgt => Nat.ne_of_gt hgt
  · exact List.pairwise_map.mpr (hfall.imp fun hgt => rank_le_of_lt hgt)

/-- `ToTypical` comes to the falling cards that stand for the images of some cards. -/
theorem toTypical_spec (hvalid : ValidGroups g.numSuits sg) (hsuits : g.numSuits ≤ 4) (hfall : cards.Pairwise (· > ·))
    (hlength : cards.length = 1 ∨ cards.length = 2 ∨ cards.length = 3) :
    ∃ canon, g.toTypical cards sg = some canon ∧ canon ∈ g.imagesUnder (g.KeepsGroups sg) cards ∧ g.Canonical sg canon := by
  obtain ⟨m, hm, hperm, hfalls⟩ := (Renaming.root hvalid hsuits hfall).typicalFrom hsuits
  rw [List.nil_append, List.nil_append] at hperm
  rw [List.nil_append] at hfalls
  change (g.toTypical2 cards sg).1.Perm _ at hperm
  change FallingLabels _ (g.suitCodes (g.toTypical2 cards sg).1) at hfalls
  have hnodup : (g.toTypical2 cards sg).1.Nodup :=
    hperm.nodup_iff.mpr (hm.perm.nodup_map (hfall.imp fun hgt => Nat.ne_of_gt hgt))
  obtain ⟨canon, hcanon, hsame, hfalling⟩ : ∃ canon, g.toTypical cards sg = some canon ∧
      canon.Perm (g.toTypical2 cards sg).1 ∧ canon.Pairwise (· > ·) := by
    rw [toTypical]
    split
    · rw [sortTypical_eq]
      obtain ⟨sorted, hsorted⟩ := sortCards_isSome (g.toTypical2 cards sg).1 (by
        rw [hperm.length_eq, List.length_map]
        exact hlength)
      exact ⟨sorted, hsorted, sortCards_perm hsorted, sortCards_falling hsorted hnodup⟩
    next hchanged =>
      refine ⟨_, rfl, List.Perm.refl _, ?_⟩
      rw [toTypical2, typicalFrom_unchanged (Bool.eq_false_iff.mpr hchanged)]
      exact hfall
  have hcodes : g.suitCodes canon = g.suitCodes (g.toTypical2 cards sg).1 :=
    suitCodes_congr fun c => hsame.mem_iff
  refine ⟨canon, hcanon, ⟨hfalling, m, hm, fun c => (hsame.trans hperm).mem_iff⟩, ?_⟩
  rw [canonical_iff hsuits hvalid hfalling, hcodes]
  exact hfalls

/-- `ToTypical` gives one set of cards for all images of a set, which is itself left as it is. A rank is a bit of an `int`
there, and all bits of a suit together stay in it. -/
theorem toTypical_canonical (hsuits : g.numSuits ≤ 4) (hranks : g.numRanks ≤ 31) :
    ∀ streets sg, g.DealtStreets streets sg → ∀ n, n = 1 ∨ n = 2 ∨ n = 3 →
      ∀ cards ∈ fallingCards streets.flatten n g.numCardsInDeck, ∃ canon, g.toTypical cards sg = some canon ∧
        canon ∈ g.imagesUnder (g.KeepsGroups sg) cards ∧ (∃ m, g.numMappings canon sg = some m ∧ 0 < m) ∧
        (∀ other ∈ g.imagesUnder (g.KeepsGroups sg) cards, g.toTypical other sg = some canon) ∧
        g.toTypical canon sg = some canon ∧ ∀ s, g.seenRanks canon s < 2 ^ 31 := by
  intro streets sg hdealt n hn cards hcards
  have hvalid := hdealt.valid hsuits
  obtain ⟨hlength, hfall, _⟩ := mem_fallingCards.mp hcards
  obtain ⟨canon, hcanon, himage, hcanonical⟩ := toTypical_spec hvalid hsuits hfall (by rwa [hlength])
  have hall : ∀ other ∈ g.imagesUnder (g.KeepsGroups sg) cards, g.toTypical other sg = some canon := by
    intro other hother
    have hundealt := image_undealt hcards (by rwa [hdealt.images_eq hsuits])
    obtain ⟨hlength', hfall', _⟩ := mem_fallingCards.mp hundealt
    obtain ⟨canon', hcanon', himage', hcanonical'⟩ := toTypical_spec hvalid hsuits hfall' (by rwa [hlength'])
    rw [images_eq hother, ← images_eq himage] at himage'
    rw [hcanon', canonical_unique hsuits hvalid himage.1 hcanonical himage' hcanonical']
  have hbits : ∀ s, g.seenRanks canon s < 2 ^ 31 := by
    intro s
    have hundealt := image_undealt hcards (by rwa [hdealt.images_eq hsuits])
    obtain ⟨_, _, hdeck'⟩ := mem_fallingCards.mp hundealt
    refine seenRanks_lt fun c hc => ?_
    have hrank : g.rank c < g.numRanks := rank_lt (hdeck' c hc).1
    omega
  exact ⟨canon, hcanon, himage, hcanonical, hall, hall canon himage, hbits⟩

theorem toTypical_canonical_holdem : ∃ canon, holdem.toTypical [47, 7, 2] suitedFlopGroups = some canon ∧
    (∃ m, holdem.numMappings canon suitedFlopGroups = some m ∧ 0 < m) ∧
    (∀ other ∈ holdem.imagesUnder (holdem.KeepsGroups suitedFlopGroups) [47, 7, 2],
      holdem.toTypical other suitedFlopGroups = some canon) ∧
    holdem.toTypical canon suitedFlopGroups = some canon := by
  obtain ⟨canon, hcanon, _, hpos, hall, hagain, _⟩ := toTypical_canonical (g := holdem) (by decide) (by decide)
    [suitedFlop] suitedFlopGroups dealtStreets_suitedFlop 3 (by decide) [47, 7, 2] (mem_fallingCards.mpr (by decide))
  exact ⟨canon, hcanon, hpos, hall, hagain⟩

example : holdem.toTypical [43, 38, 2] noGroups = some [40, 37, 1] := by decide +kernel

end

end SGame

end MasterAI
