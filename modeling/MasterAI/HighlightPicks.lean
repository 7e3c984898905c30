import MasterAI.HighlightCard
import MasterAI.PokerHands
import Mathlib.Data.List.GetD

namespace MasterAI

namespace HighlightCard

def cardSuits : List Char := ['s', 'h', 'c', 'd']

/-- The text of a card: one of the ranks and one of the suits. -/
def ValidCard (card : List Char) : Prop := ∃ r ∈ cardRanks, ∃ s ∈ cardSuits, card = [r, s]

/-- The text that is looked up for a rank and, where there is one, a suit. -/
def pickText (suit : Option Char) (r : Int) : List Char := rankChar r :: suit.toList

/-- The rank and the suit, where there is one, are those of the card. -/
def IsPick (suit : Option Char) (r : Int) (card : List Char) : Prop :=
  card2Rank card = r ∧ ∀ s ∈ suit, card2Suit card = s

instance (suit : Option Char) (r : Int) : DecidablePred (IsPick suit r) := fun _ =>
  @instDecidableAnd _ _ inferInstance (Option.decidableForallMem suit)

section

variable {cards : List (List Char)} {findCard card : List Char} {suit : Option Char} {i j k : Nat} {r : Int}
  {win idx : List Nat} {keys : List (Int × Nat)}

theorem getCardIndexFrom_some (h : getCardIndexFrom findCard j i cards = some k) :
    ∃ n card, k = j + n ∧ cards[n]? = some card ∧ contains findCard card = true ∧
      (cards.take n).countP (contains findCard) = i := by
  induction cards generalizing j i with
  | nil => cases h
  | cons card cards ih =>
    unfold getCardIndexFrom at h
    split at h
    next hfound =>
      split at h
      · exact ⟨0, card, (Option.some.inj h).symm, rfl, hfound, rfl⟩
      · obtain ⟨n, other, hk, hcard, hcontains, hcount⟩ := ih h
        refine ⟨n + 1, other, by omega, hcard, hcontains, ?_⟩
        rw [List.take_succ_cons, List.countP_cons_of_pos hfound, hcount]
    next hmissing =>
      obtain ⟨n, other, hk, hcard, hcontains, hcount⟩ := ih h
      refine ⟨n + 1, other, by omega, hcard, hcontains, ?_⟩
      rw [List.take_succ_cons, List.countP_cons_of_neg hmissing, hcount]

theorem getCardIndexFrom_isSome (h : i < cards.countP (contains findCard)) :
    (getCardIndexFrom findCard j i cards).isSome := by
  induction cards generalizing j i with
  | nil => simp at h
  | cons card cards ih =>
    unfold getCardIndexFrom
    split
    next hfound =>
      rw [List.countP_cons_of_pos hfound] at h
      split
      · rfl
      · exact ih (by omega)
    next hmissing =>
      rw [List.countP_cons_of_neg hmissing] at h
      exact ih h

/-- The position found for a text and a number of finds to skip tells the number. -/
theorem getCardIndex_some (h : getCardIndex cards findCard i = some k) :
    ∃ card, cards[k]? = some card ∧ contains findCard card = true ∧ (cards.take k).countP (contains findCard) = i := by
  obtain ⟨n, card, hk, hcard, hcontains, hcount⟩ := getCardIndexFrom_some h
  rw [Nat.zero_add] at hk
  subst hk
  exact ⟨card, hcard, hcontains, hcount⟩

theorem findRank_rankChar : ∀ c ∈ cardRanks, ∀ n < 13, rankChar (n : Nat) = c ↔ findRank c = n := by
  have hall : (cardRanks.all fun c => (List.range 13).all fun n => rankChar (n : Nat) = c ↔ findRank c = n) = true := by decide
  simpa only [List.all_eq_true, decide_eq_true_eq, List.mem_range] using hall

theorem ranks_suits_disjoint : ∀ c ∈ cardRanks, c ∉ cardSuits := by
  have hall : (cardRanks.all fun c => c ∉ cardSuits) = true := by decide
  simpa only [List.all_eq_true, decide_eq_true_eq] using hall

theorem findRank_range : ∀ c ∈ cardRanks, 0 ≤ findRank c ∧ findRank c ≤ 12 := by
  have hall : (cardRanks.all fun c => 0 ≤ findRank c ∧ findRank c ≤ 12) = true := by decide
  simpa only [List.all_eq_true, decide_eq_true_eq] using hall

theorem ValidCard.rank_range (h : ValidCard card) : 0 ≤ card2Rank card ∧ card2Rank card ≤ 12 := by
  obtain ⟨c, hc, s, _, rfl⟩ := h
  exact findRank_range c hc

theorem ValidCard.suit_mem (h : ValidCard card) : card2Suit card ∈ cardSuits := by
  obtain ⟨c, _, s, hs, rfl⟩ := h
  exact hs

theorem rankChar_mem (hr : 0 ≤ r ∧ r ≤ 12) : rankChar r ∈ cardRanks := by
  have hlt : r.toNat < cardRanks.length := by
    have hlength : cardRanks.length = 13 := rfl
    omega
  rw [rankChar, List.getD_eq_getElem _ _ hlt]
  exact List.getElem_mem hlt

theorem ValidCard.rankChar_eq (h : ValidCard card) (hr : 0 ≤ r ∧ r ≤ 12) :
    rankChar r = card.getD 0 '\x00' ↔ card2Rank card = r := by
  obtain ⟨c, hc, s, _, rfl⟩ := h
  obtain ⟨n, rfl⟩ := Int.eq_ofNat_of_zero_le hr.1
  exact findRank_rankChar c hc n (by omega)

/-- A card contains the text of a rank and a suit exactly where they are its own. -/
theorem contains_pickText (hcard : ValidCard card) (hr : 0 ≤ r ∧ r ≤ 12) :
    contains (pickText suit r) card = true ↔ IsPick suit r card := by
  have hrank := hcard.rankChar_eq hr
  obtain ⟨c, hc, s, hs, rfl⟩ := hcard
  have hother : rankChar r ≠ s := fun heq => ranks_suits_disjoint _ (rankChar_mem hr) (heq ▸ hs)
  rw [IsPick, ← hrank]
  cases suit with
  | none => simp [contains, pickText, strstr, hother]
  | some t =>
    have hsuit : t = s ↔ s = t := eq_comm
    simp [contains, pickText, strstr, card2Suit, hother, hsuit]

end

/-- Positions of different cards with some ranks and, where there is one, of a suit. -/
structure Selected (cards : List (List Char)) (suit : Option Char) (ranks : List Int) (idx : List Nat) : Prop where
  nodup : idx.Nodup
  lt : ∀ i ∈ idx, i < cards.length
  ranks : (idx.map fun i => card2Rank (cards.getD i [])) = ranks
  suits : ∀ s ∈ suit, ∀ i ∈ idx, card2Suit (cards.getD i []) = s

section

variable {cards : List (List Char)} {suit : Option Char} {win idx : List Nat} {keys : List (Int × Nat)} {ranks : List Int}

/-- The pushes of cards of some ranks, each with a number of finds to skip. -/
def pushPicks (cards : List (List Char)) (suit : Option Char) (keys : List (Int × Nat)) (win : List Nat) : List Nat :=
  keys.foldl (fun win key => pushCardIndex cards (pickText suit key.1) key.2 win) win

/-- There are more cards of each rank than are skipped. -/
def Available (cards : List (List Char)) (suit : Option Char) (keys : List (Int × Nat)) : Prop :=
  ∀ key ∈ keys, (0 ≤ key.1 ∧ key.1 ≤ 12) ∧ key.2 < cards.countP fun card => IsPick suit key.1 card

theorem countP_contains (hvalid : ∀ card ∈ cards, ValidCard card) {r : Int} (hr : 0 ≤ r ∧ r ≤ 12) :
    cards.countP (contains (pickText suit r)) = cards.countP fun card => IsPick suit r card := by
  refine List.countP_congr fun card hcard => ?_
  rw [contains_pickText (hvalid card hcard) hr, decide_eq_true_eq]

theorem pushPicks_eq (hvalid : ∀ card ∈ cards, ValidCard card) (hkeys : Available cards suit keys) (win : List Nat) :
    ∃ idx, pushPicks cards suit keys win = win ++ idx ∧
      List.Forall₂ (fun key i => getCardIndex cards (pickText suit key.1) key.2 = some i) keys idx := by
  induction keys generalizing win with
  | nil => exact ⟨[], by simp [pushPicks], .nil⟩
  | cons key keys ih =>
    obtain ⟨hrange, hcount⟩ := hkeys key (by simp)
    rw [← countP_contains hvalid hrange] at hcount
    obtain ⟨i, hi⟩ := Option.isSome_iff_exists.mp (getCardIndexFrom_isSome (j := 0) hcount)
    obtain ⟨idx, hidx, hall⟩ := ih (fun other hother => hkeys other (List.mem_cons_of_mem _ hother)) (win ++ [i])
    refine ⟨i :: idx, ?_, .cons hi hall⟩
    have hpush : pushCardIndex cards (pickText suit key.1) key.2 win = win ++ [i] := by
      rw [pushCardIndex, getCardIndex, hi]
      rfl
    rw [pushPicks, List.foldl_cons, hpush]
    exact hidx.trans (by simp)

theorem forall₂_found_mem (hall : List.Forall₂
    (fun key i => getCardIndex cards (pickText suit key.1) key.2 = some i) keys idx) :
    ∀ i ∈ idx, ∃ key ∈ keys, getCardIndex cards (pickText suit key.1) key.2 = some i := by
  induction hall with
  | nil => simp
  | cons hhead _ ih =>
    intro i hi
    rcases List.mem_cons.mp hi with rfl | hi
    · exact ⟨_, by simp, hhead⟩
    · obtain ⟨key, hkey, hfound⟩ := ih i hi
      exact ⟨key, List.mem_cons_of_mem _ hkey, hfound⟩

/-- What is found for a key, and that the key can be told from it. -/
theorem found_pick (hvalid : ∀ card ∈ cards, ValidCard card) {key : Int × Nat} {i : Nat} (hr : 0 ≤ key.1 ∧ key.1 ≤ 12)
    (h : getCardIndex cards (pickText suit key.1) key.2 = some i) :
    i < cards.length ∧ IsPick suit key.1 (cards.getD i []) ∧
      (cards.take i).countP (contains (pickText suit key.1)) = key.2 := by
  obtain ⟨card, hcard, hcontains, hcount⟩ := getCardIndex_some h
  obtain ⟨hlt, hget⟩ := List.getElem?_eq_some_iff.mp hcard
  refine ⟨hlt, ?_, hcount⟩
  rw [List.getD_eq_getElem _ _ hlt, hget]
  exact (contains_pickText (hvalid card (List.mem_of_getElem? hcard)) hr).mp hcontains

/-- Pushes for different keys select different cards of their ranks. -/
theorem pushPicks_selected (hvalid : ∀ card ∈ cards, ValidCard card) (hkeys : Available cards suit keys)
    (hnodup : keys.Nodup) : Selected cards suit (keys.map Prod.fst) (pushPicks cards suit keys []) := by
  obtain ⟨idx, hidx, hall⟩ := pushPicks_eq hvalid hkeys []
  rw [hidx, List.nil_append]
  clear hidx
  induction hall with
  | nil => exact ⟨List.nodup_nil, by simp, rfl, by simp⟩
  | @cons key i keys idx hhead htail ih =>
    obtain ⟨hnot, hnodup⟩ := List.nodup_cons.mp hnodup
    have hrest : Available cards suit keys := fun other hother => hkeys other (List.mem_cons_of_mem _ hother)
    have hselected := ih hrest hnodup
    obtain ⟨hlt, hpick, hcount⟩ := found_pick hvalid (hkeys key (by simp)).1 hhead
    refine ⟨List.nodup_cons.mpr ⟨fun hmem => ?_, hselected.nodup⟩, ?_, ?_, fun s hs => ?_⟩
    · obtain ⟨other, hother, hfound⟩ := forall₂_found_mem htail i hmem
      obtain ⟨_, hpick', hcount'⟩ := found_pick hvalid (hrest other hother).1 hfound
      have hrank : key.1 = other.1 := hpick.1.symm.trans hpick'.1
      rw [hrank, hcount'] at hcount
      exact hnot (by rw [show key = other from Prod.ext hrank hcount.symm]; exact hother)
    · exact List.forall_mem_cons.mpr ⟨hlt, hselected.lt⟩
    · rw [List.map_cons, List.map_cons, hselected.ranks, hpick.1]
    · exact List.forall_mem_cons.mpr ⟨hpick.2 s hs, hselected.suits s hs⟩

/-- The pushes of a loop that stops at five positions. -/
def pushBounded (cards : List (List Char)) (suit : Option Char) (keys : List (Int × Nat)) (win : List Nat) : List Nat :=
  keys.foldl (fun win key =>
    if win.length < stdHandNum then pushCardIndex cards (pickText suit key.1) key.2 win else win) win

theorem pushBounded_append (keys more : List (Int × Nat)) (win : List Nat) :
    pushBounded cards suit (keys ++ more) win = pushBounded cards suit more (pushBounded cards suit keys win) :=
  List.foldl_append

theorem pushPicks_length (hvalid : ∀ card ∈ cards, ValidCard card) (hkeys : Available cards suit keys) (win : List Nat) :
    (pushPicks cards suit keys win).length = win.length + keys.length := by
  obtain ⟨idx, hidx, hall⟩ := pushPicks_eq hvalid hkeys win
  rw [hidx, List.length_append, hall.length_eq]

/-- The loop that stops at five makes the pushes for which there is room. -/
theorem pushBounded_eq (hvalid : ∀ card ∈ cards, ValidCard card) (hkeys : Available cards suit keys) (win : List Nat) :
    pushBounded cards suit keys win = pushPicks cards suit (keys.take (stdHandNum - win.length)) win := by
  induction keys generalizing win with
  | nil => simp [pushBounded, pushPicks]
  | cons key keys ih =>
    have hrest : Available cards suit keys := fun other hother => hkeys other (List.mem_cons_of_mem _ hother)
    rw [pushBounded, List.foldl_cons]
    split
    next hroom =>
      have hone := pushPicks_length hvalid (show Available cards suit [key] from fun other hother =>
        hkeys other (by rw [List.mem_singleton.mp hother]; simp)) win
      have hlength : (pushCardIndex cards (pickText suit key.1) key.2 win).length = win.length + 1 := hone
      have hsplit : stdHandNum - win.length = stdHandNum - (win.length + 1) + 1 := by omega
      rw [hsplit, List.take_succ_cons]
      refine (ih hrest _).trans ?_
      rw [hlength]
      rfl
    next hfull =>
      have hzero : stdHandNum - win.length = 0 := by omega
      have hsame := ih hrest win
      rw [hzero, List.take_zero] at hsame ⊢
      exact hsame

end

end HighlightCard

end MasterAI
