import MasterAI.HighlightPicks
import Mathlib.Algebra.BigOperators.Group.List.Lemmas
import Mathlib.Algebra.Order.Monoid.Unbundled.Basic

namespace MasterAI

namespace HighlightCard

section Sorted

variable {α : Type} [LinearOrder α] {l : List α} {p q : α × Nat}

theorem not_cmpByValue : ¬CmpByValue q p ↔ q.2 < p.2 ∨ q.2 = p.2 ∧ q.1 ≤ p.1 := by
  unfold CmpByValue
  split
  next h => simp [h]
  next h =>
    simp only [gt_iff_lt, not_lt, h, false_and, or_false]
    omega

instance : Std.Total fun p q : α × Nat => ¬CmpByValue q p where
  total p q := by
    rw [not_cmpByValue, not_cmpByValue]
    rcases lt_trichotomy q.2 p.2 with h | h | h
    · exact .inl (.inl h)
    · rcases le_total q.1 p.1 with hle | hle
      · exact .inl (.inr ⟨h, hle⟩)
      · exact .inr (.inr ⟨h.symm, hle⟩)
    · exact .inr (.inl h)

instance : IsTrans (α × Nat) fun p q => ¬CmpByValue q p where
  trans p q r hpq hqr := by
    rw [not_cmpByValue] at *
    rcases hpq with hpq | ⟨hpq, hle⟩
    · left
      omega
    · rcases hqr with hqr | ⟨hqr, hle'⟩
      · left
        omega
      · exact .inr ⟨by omega, hle'.trans hle⟩

/-- The entries of a list with its elements and how often they occur, in the order of the counts. -/
structure CountList (l : List α) (entries : List (α × Nat)) : Prop where
  mem : ∀ e, e ∈ entries ↔ e.1 ∈ l ∧ e.2 = l.count e.1
  sorted : entries.Pairwise CmpByValue
  sum : (entries.map Prod.snd).sum = l.length

theorem countList_sortMapByValue (l : List α) : CountList l (sortMapByValue (countVecEle l)) := by
  have hperm : (sortMapByValue (countVecEle l)).Perm (l.dedup.map fun ele => (ele, l.count ele)) :=
    (List.perm_insertionSort _ _).trans ((List.perm_insertionSort _ _).map _)
  have hnodup : (sortMapByValue (countVecEle l)).Nodup := by
    rw [hperm.nodup_iff]
    exact l.nodup_dedup.map fun a b h => congrArg Prod.fst h
  refine ⟨fun e => ?_, ?_, ?_⟩
  · rw [hperm.mem_iff, List.mem_map]
    constructor
    · rintro ⟨a, ha, rfl⟩
      exact ⟨List.mem_dedup.mp ha, rfl⟩
    · rintro ⟨hmem, hcount⟩
      exact ⟨e.1, List.mem_dedup.mpr hmem, by rw [← hcount]⟩
  · have hsorted := (countVecEle l).pairwise_insertionSort fun p q => ¬CmpByValue q p
    refine (hsorted.and hnodup).imp_of_mem ?_
    intro p q hp hq hpq
    have hcounts : ∀ e ∈ sortMapByValue (countVecEle l), e.2 = l.count e.1 := fun e he => by
      obtain ⟨a, _, rfl⟩ := List.mem_map.mp (hperm.mem_iff.mp he)
      rfl
    rw [not_cmpByValue] at hpq
    obtain ⟨hle, hne⟩ := hpq
    unfold CmpByValue
    rcases hle with hlt | ⟨heq, hle⟩
    · rw [if_neg (by omega)]
      exact hlt
    · rw [if_pos heq.symm]
      refine lt_of_le_of_ne hle fun hsame => hne ?_
      exact Prod.ext hsame.symm heq.symm
  · rw [(hperm.map Prod.snd).sum_eq, List.map_map]
    exact l.sum_map_count_dedup_eq_length

variable {entries : List (α × Nat)}

theorem CountList.keys_nodup (h : CountList l entries) : (entries.map Prod.fst).Nodup := by
  rw [List.nodup_iff_pairwise_ne, List.pairwise_map]
  refine h.sorted.imp_of_mem fun {p q} hp hq hcmp heq => ?_
  have hcount : p.2 = q.2 := by rw [((h.mem p).mp hp).2, ((h.mem q).mp hq).2, heq]
  unfold CmpByValue at hcmp
  rw [if_pos hcount, heq] at hcmp
  exact lt_irrefl _ hcmp

theorem CountList.count_pos (h : CountList l entries) (he : p ∈ entries) : 0 < p.2 := by
  obtain ⟨hmem, hcount⟩ := (h.mem p).mp he
  rw [hcount]
  exact List.count_pos_iff.mpr hmem

/-- The first entry comes before any other in the order. -/
theorem CountList.head (h : CountList l (p :: entries)) (hq : q ∈ entries) : q.2 < p.2 ∨ q.2 = p.2 ∧ q.1 < p.1 := by
  have hcmp := (List.pairwise_cons.mp h.sorted).1 q hq
  unfold CmpByValue at hcmp
  split at hcmp
  next heq => exact .inr ⟨heq.symm, hcmp⟩
  next => exact .inl hcmp

end Sorted

section Choice

variable {cards : List (List Char)} {r : Int} {n i : Nat} {rSortedCardRanks : List Int}
  {entries rest : List (Int × Nat)} {win : List Nat}

/-- The cards of the ranks of a list of entries, in its order. -/
def spread (entries : List (Int × Nat)) : List (Int × Nat) :=
  entries.flatMap fun e => (List.range e.2).map fun j => (e.1, j)

theorem spread_cons (e : Int × Nat) (rest : List (Int × Nat)) :
    spread (e :: rest) = (List.range e.2).map (fun j => (e.1, j)) ++ spread rest := List.flatMap_cons

theorem mem_spread {key : Int × Nat} : key ∈ spread entries ↔ ∃ e ∈ entries, key.1 = e.1 ∧ key.2 < e.2 := by
  simp only [spread, List.mem_flatMap, List.mem_map, List.mem_range]
  constructor
  · rintro ⟨e, he, j, hj, rfl⟩
    exact ⟨e, he, rfl, hj⟩
  · rintro ⟨e, he, hrank, hlt⟩
    exact ⟨e, he, key.2, hlt, Prod.ext hrank.symm rfl⟩

theorem spread_nodup (h : (entries.map Prod.fst).Nodup) : (spread entries).Nodup := by
  induction entries with
  | nil => exact List.nodup_nil
  | cons e entries ih =>
    obtain ⟨hnot, hrest⟩ := List.nodup_cons.mp h
    rw [spread_cons]
    refine List.nodup_append.mpr ⟨List.nodup_range.map fun a b hab => congrArg Prod.snd hab, ih hrest, ?_⟩
    rintro key hkey other hother rfl
    obtain ⟨j, _, rfl⟩ := List.mem_map.mp hkey
    obtain ⟨e', he', hrank, _⟩ := mem_spread.mp hother
    exact hnot (List.mem_map.mpr ⟨e', he', hrank.symm⟩)

theorem getCountFromPairs_eq (h : (entries.map Prod.fst).Nodup) {e : Int × Nat} (he : e ∈ entries) :
    getCountFromPairs entries e.1 = e.2 := by
  induction entries with
  | nil => cases he
  | cons e' entries ih =>
    obtain ⟨hnot, hrest⟩ := List.nodup_cons.mp h
    unfold getCountFromPairs at ih ⊢
    rcases List.mem_cons.mp he with rfl | he
    · simp
    · have hne : e'.1 ≠ e.1 := fun heq => hnot (heq ▸ List.mem_map_of_mem he)
      rw [List.find?_cons_of_neg (by simpa using hne)]
      exact ih hrest he

theorem pushRank_eq (r : Int) (n : Nat) (win : List Nat) :
    pushRank cards r n win = pushBounded cards none ((List.range n).map fun j => (r, j)) win := by
  rw [pushRank, pushBounded, List.foldl_map]
  rfl

/-- After the second rank the loop only goes on until there are five positions. -/
theorem setRanksFrom_late (hkeys : (entries.map Prod.fst).Nodup) (hrest : rest ⊆ entries) (hi : 2 ≤ i) :
    setRanksFrom cards rSortedCardRanks entries i rest win = pushBounded cards none (spread rest) win := by
  induction rest generalizing i win with
  | nil => rfl
  | cons e rest ih =>
    have hcount := getCountFromPairs_eq hkeys (hrest (List.mem_cons_self))
    have hzero : ¬(i = 0) := by omega
    have hone : ¬(i = 1) := by omega
    rw [setRanksFrom]
    simp only [hzero, hone, false_and, if_false, Option.or_none, Option.getD_none]
    rw [hcount, ih (fun x hx => hrest (List.mem_cons_of_mem _ hx)) (by omega), pushRank_eq, spread_cons,
      pushBounded_append]

theorem countP_isPick (r : Int) :
    (cards.countP fun card => IsPick none r card) = (cards.map card2Rank).count r := by
  rw [List.count, List.countP_map]
  refine List.countP_congr fun card _ => ?_
  simp [IsPick]

variable (hvalid : ∀ card ∈ cards, ValidCard card) (hentries : CountList (cards.map card2Rank) entries)

include hvalid in
/-- A card of a rank that is there is found, and as many more as there are. -/
theorem available_iff {keys : List (Int × Nat)} :
    Available cards none keys ↔ ∀ key ∈ keys, key.2 < (cards.map card2Rank).count key.1 := by
  unfold Available
  simp only [countP_isPick]
  refine forall₂_congr fun key _ => and_iff_right_of_imp fun hlt => ?_
  obtain ⟨card, hcard, hrank⟩ := List.mem_map.mp (List.count_pos_iff.mp (Nat.zero_lt_of_lt hlt))
  rw [← hrank]
  exact (hvalid card hcard).rank_range

include hvalid hentries in
theorem available_spread : Available cards none (spread entries) := by
  refine (available_iff hvalid).mpr fun key hkey => ?_
  obtain ⟨e, he, hrank, hlt⟩ := mem_spread.mp hkey
  rw [hrank, ← ((hentries.mem e).mp he).2]
  exact hlt

include hvalid in
/-- The first rank as the loop pushes it. -/
theorem pushRank_first (hentries : CountList (cards.map card2Rank) ((r, n) :: rest)) (hn : n ≤ 4) :
    pushRank cards r (getCountFromPairs ((r, n) :: rest) r) [] =
        pushPicks cards none ((List.range n).map fun j => (r, j)) [] ∧
      (pushRank cards r (getCountFromPairs ((r, n) :: rest) r) []).length = n := by
  have havailable : Available cards none ((List.range n).map fun j => (r, j)) := fun key hkey =>
    available_spread hvalid hentries key (by
      rw [spread_cons]
      exact List.mem_append_left _ hkey)
  have hcount := getCountFromPairs_eq hentries.keys_nodup (List.mem_cons_self (a := (r, n)))
  have hpush : pushRank cards r (getCountFromPairs ((r, n) :: rest) r) [] =
      pushPicks cards none ((List.range n).map fun j => (r, j)) [] := by
    rw [hcount, pushRank_eq, pushBounded_eq hvalid havailable, List.take_of_length_le]
    rw [List.length_map, List.length_range]
    exact hn.trans (by decide)
  refine ⟨hpush, ?_⟩
  rw [hpush, pushPicks_length hvalid havailable]
  simp

include hvalid in
/-- Four of a kind take the first card of the highest other rank. -/
theorem setWinCardIndexes_quads (hentries : CountList (cards.map card2Rank) ((r, 4) :: rest)) {k : Int}
    (hk : rSortedCardRanks.find? (fun x => x ∉ [r]) = some k) :
    setWinCardIndexes cards rSortedCardRanks ((r, 4) :: rest) none =
      pushPicks cards none [(r, 0), (r, 1), (r, 2), (r, 3), (k, 0)] [] := by
  obtain ⟨hpush, hlength⟩ := pushRank_first hvalid hentries le_rfl
  have hother : pushOther cards rSortedCardRanks [r] (pushRank cards r (getCountFromPairs ((r, 4) :: rest) r) []) =
      some (pushPicks cards none [(r, 0), (r, 1), (r, 2), (r, 3), (k, 0)] []) := by
    rw [pushOther, hk, Option.map_some, hpush]
    rfl
  rw [setWinCardIndexes, Option.elim_none, setRanksFrom]
  simp only [hlength]
  rw [if_pos (by decide), hother, Option.some_or, Option.getD_some]

include hvalid in
/-- Of three pairs and another card the third pair gives way to the higher rank. -/
theorem setWinCardIndexes_threePairs {p q x y k : Int} {c : Nat}
    (hentries : CountList (cards.map card2Rank) [(p, 2), (q, 2), (x, 2), (y, c)])
    (hk : rSortedCardRanks.find? (fun z => z ∉ [p, q]) = some k) :
    setWinCardIndexes cards rSortedCardRanks [(p, 2), (q, 2), (x, 2), (y, c)] none =
      pushPicks cards none [(p, 0), (p, 1), (q, 0), (q, 1), (k, 0)] [] := by
  obtain ⟨hpush, hlength⟩ := pushRank_first hvalid hentries (by decide)
  have hcount := getCountFromPairs_eq hentries.keys_nodup (e := (q, 2)) (by simp)
  have havailable : Available cards none ((List.range 2).map fun j => (q, j)) := fun key hkey =>
    available_spread hvalid hentries key (by
      obtain ⟨j, hj, rfl⟩ := List.mem_map.mp hkey
      exact mem_spread.mpr ⟨(q, 2), by simp, rfl, List.mem_range.mp hj⟩)
  have hsecond : pushRank cards q (getCountFromPairs [(p, 2), (q, 2), (x, 2), (y, c)] q)
      (pushRank cards p (getCountFromPairs [(p, 2), (q, 2), (x, 2), (y, c)] p) []) =
        pushPicks cards none [(p, 0), (p, 1), (q, 0), (q, 1)] [] := by
    rw [hcount, pushRank_eq, pushBounded_eq hvalid havailable, hlength, hpush]
    rfl
  have hother : pushOther cards rSortedCardRanks [p, q] (pushPicks cards none [(p, 0), (p, 1), (q, 0), (q, 1)] []) =
      some (pushPicks cards none [(p, 0), (p, 1), (q, 0), (q, 1), (k, 0)] []) := by
    rw [pushOther, hk]
    rfl
  rw [setWinCardIndexes, Option.elim_none, setRanksFrom]
  simp only [hlength]
  rw [if_neg (by decide), if_neg fun h => absurd h.1 (by decide), Option.none_or, Option.getD_none, setRanksFrom]
  simp only [hsecond]
  rw [if_neg fun h => absurd h.1 (by decide), if_pos (by simp), Option.none_or]
  simp only [List.take_succ_cons, List.take_zero, List.map_cons, List.map_nil]
  rw [hother, Option.getD_some]

include hvalid in
/-- In the other cases the first five cards are taken. -/
theorem setWinCardIndexes_plain (hentries : CountList (cards.map card2Rank) ((r, n) :: rest)) (hn : n ≤ 3)
    (hpairs : ¬(((r, n) :: rest).length = 4 ∧ (((r, n) :: rest).map Prod.snd).take 3 = [2, 2, 2])) :
    setWinCardIndexes cards rSortedCardRanks ((r, n) :: rest) none =
      pushPicks cards none ((spread ((r, n) :: rest)).take 5) [] := by
  obtain ⟨hpush, hlength⟩ := pushRank_first hvalid hentries (by omega)
  have hfour : ¬n = stdHandNum - 1 := by
    unfold stdHandNum
    omega
  have hcount := getCountFromPairs_eq hentries.keys_nodup (List.mem_cons_self (a := (r, n)))
  have hbounded : setWinCardIndexes cards rSortedCardRanks ((r, n) :: rest) none =
      pushBounded cards none (spread ((r, n) :: rest)) [] := by
    rw [setWinCardIndexes, Option.elim_none, setRanksFrom]
    simp only [hlength, hfour, and_false, if_false, zero_ne_one, false_and, Option.or_none, Option.getD_none]
    rw [hcount, pushRank_eq, spread_cons, pushBounded_append]
    cases rest with
    | nil => rfl
    | cons e rest =>
      have hnext := getCountFromPairs_eq hentries.keys_nodup (e := e) (by simp)
      rw [setRanksFrom]
      simp only [hpairs, and_false, if_false, Option.or_none]
      rw [if_neg fun h => absurd h.1 (by decide), Option.getD_none, hnext, setRanksFrom_late hentries.keys_nodup (fun x hx => by simp [hx]) le_rfl, pushRank_eq,
        spread_cons, pushBounded_append]
  rw [hbounded, pushBounded_eq hvalid (available_spread hvalid hentries)]
  rfl

end Choice

end HighlightCard

end MasterAI
