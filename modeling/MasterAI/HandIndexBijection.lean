import MasterAI.HandIndex
import Mathlib.Data.Finset.Card
import Mathlib.Data.Set.Function
import Mathlib.Tactic.Zify

namespace MasterAI

/-- The pairs of a high and a low card below a bound that are not on the board. -/
def holePairs (n : Nat) (board : List Nat) : Set (Nat × Nat) :=
  {p | p.2 < p.1 ∧ p.1 < n ∧ p.1 ∉ board ∧ p.2 ∉ board}

section

variable {board : List Nat} {n k m : Nat}

theorem lowered_top (hdeck : ∀ c ∈ board, c < n) : lowered board n = n - board.length := by
  have hcount : (board.countP fun b => decide (b < n)) = board.length := by
    rw [List.countP_eq_length]
    intro c hc
    exact decide_eq_true (hdeck c hc)
  rw [lowered, hcount]

/-- The cards off the board are counted without gaps. -/
theorem exists_lowered_eq (hnodup : board.Nodup) (hdeck : ∀ c ∈ board, c < n) (hk : k < n - board.length) :
    ∃ c < n, c ∉ board ∧ lowered board c = k := by
  have hsub : board.toFinset ⊆ Finset.range n := by
    intro c hc
    exact Finset.mem_range.mpr (hdeck c (List.mem_toFinset.mp hc))
  obtain ⟨off, hoff, hcard⟩ : ∃ off : Finset Nat, (∀ c, c ∈ off ↔ c < n ∧ c ∉ board) ∧ off.card = n - board.length := by
    refine ⟨Finset.range n \ board.toFinset, ?_, ?_⟩
    · intro c
      rw [Finset.mem_sdiff, Finset.mem_range, List.mem_toFinset]
    · rw [Finset.card_sdiff_of_subset hsub, Finset.card_range, List.toFinset_card_of_nodup hnodup]
  have hmaps : Set.MapsTo (lowered board) off (Finset.range (n - board.length)) := by
    intro c hc
    obtain ⟨hlt, hout⟩ := (hoff c).mp hc
    have hbelow := lowered_lt hnodup hlt hout
    rw [lowered_top hdeck] at hbelow
    exact Finset.mem_coe.mpr (Finset.mem_range.mpr hbelow)
  have hinj : Set.InjOn (lowered board) off := by
    intro c hc d hd heq
    exact lowered_inj hnodup ((hoff c).mp hc).2 ((hoff d).mp hd).2 heq
  have hle : (Finset.range (n - board.length)).card ≤ off.card := by
    rw [hcard, Finset.card_range]
  obtain ⟨c, hc, heq⟩ := Finset.surjOn_of_injOn_of_card_le _ hmaps hinj hle (Finset.mem_coe.mpr (Finset.mem_range.mpr hk))
  obtain ⟨hlt, hout⟩ := (hoff c).mp hc
  exact ⟨c, hlt, hout, heq⟩

/-- Every number below that of all pairs is the number of a pair. -/
theorem exists_pair_eq (hk : k < m.choose 2) : ∃ a b, b < a ∧ a < m ∧ k = a.choose 2 + b := by
  induction m with
  | zero => simp at hk
  | succ m ih =>
    rw [choose_two_succ] at hk
    rcases Nat.lt_or_ge k (m.choose 2) with hlt | hge
    · obtain ⟨a, b, hba, ham, heq⟩ := ih hlt
      exact ⟨a, b, hba, by omega, heq⟩
    · exact ⟨m, k - m.choose 2, by omega, by omega, by omega⟩

/-- The hands of a board follow those of the board before it. -/
theorem blocks_bijOn {α : Type*} {num size : Nat} {hands : Nat → Set α} {idx : Nat → α → Int}
    (hidx : ∀ bd < num, Set.BijOn (idx bd) (hands bd) {k | 0 ≤ k ∧ k < (size : Int)}) :
    Set.BijOn (fun x : Nat × α => (x.1 : Int) * size + idx x.1 x.2) {x | x.1 < num ∧ x.2 ∈ hands x.1}
      {k | 0 ≤ k ∧ k < ((num * size : Nat) : Int)} := by
  refine ⟨?_, ?_, ?_⟩
  · rintro ⟨bd, p⟩ ⟨hbd, hp⟩
    have hrange : 0 ≤ idx bd p ∧ idx bd p < (size : Int) := (hidx bd hbd).mapsTo hp
    have hblock := Nat.mul_le_mul_right size (show bd + 1 ≤ num from hbd)
    rw [Nat.succ_mul] at hblock
    have hall : 0 ≤ (bd : Int) * size + idx bd p ∧ (bd : Int) * size + idx bd p < ((num * size : Nat) : Int) := by
      have hfirst : (0 : Int) ≤ ((bd * size : Nat) : Int) := Int.natCast_nonneg _
      rw [Nat.cast_mul] at hfirst
      zify at hblock
      rw [Nat.cast_mul]
      omega
    exact hall
  · rintro ⟨bd, p⟩ ⟨hbd, hp⟩ ⟨bd', p'⟩ ⟨hbd', hp'⟩ heq
    obtain ⟨hpos, hlt⟩ := (hidx bd hbd).mapsTo hp
    obtain ⟨hpos', hlt'⟩ := (hidx bd' hbd').mapsTo hp'
    dsimp only at heq hpos hlt hpos' hlt'
    have hsize : (0 : Int) < size := by omega
    have hdiv := congrArg (· / (size : Int)) heq
    rw [Int.mul_comm (bd : Int), Int.mul_comm (bd' : Int), Int.mul_add_ediv_left _ _ hsize.ne',
      Int.mul_add_ediv_left _ _ hsize.ne', Int.ediv_eq_zero_of_lt hpos hlt, Int.ediv_eq_zero_of_lt hpos' hlt',
      Int.add_zero, Int.add_zero, Int.natCast_inj] at hdiv
    subst hdiv
    have hsame : idx bd p = idx bd p' := by omega
    exact congrArg (Prod.mk bd) ((hidx bd hbd).injOn hp hp' hsame)
  · rintro k ⟨hk, hlt⟩
    obtain ⟨j, rfl⟩ := Int.eq_ofNat_of_zero_le hk
    rw [Int.ofNat_lt] at hlt
    have hsize : 0 < size := by
      rcases Nat.eq_zero_or_pos size with rfl | hpos
      · omega
      · exact hpos
    have hbd : j / size < num := Nat.div_lt_of_lt_mul (by rwa [Nat.mul_comm])
    obtain ⟨p, hp, heq⟩ := (hidx (j / size) hbd).surjOn
      (show ((j % size : Nat) : Int) ∈ {k : Int | 0 ≤ k ∧ k < (size : Int)} from
        ⟨Int.natCast_nonneg _, Int.ofNat_lt.mpr (Nat.mod_lt j hsize)⟩)
    refine ⟨(j / size, p), ⟨hbd, hp⟩, ?_⟩
    have hsplit := Nat.div_add_mod' j size
    dsimp only
    rw [heq]
    omega

end

namespace SGame

section

variable {g : SGame} {st : Nat} {board : List Nat}

/-- The number of a private hand on a board is one of as many as there are pairs of cards off the board, and each
number is that of exactly one pair. -/
theorem getPrivateHandIdx_bijOn (htwo : g.numHoleCards = 2) (hlength : board.length = g.numBoardCards st)
    (hnodup : board.Nodup) (hdeck : ∀ c ∈ board, c < g.numCardsInDeck) :
    Set.BijOn (fun p : Nat × Nat => g.getPrivateHandIdxWithTotalCards st board [p.1, p.2])
      (holePairs g.numCardsInDeck board) {k | 0 ≤ k ∧ k < (g.numHoleCardPairs st : Nat)} := by
  have htop := lowered_top hdeck
  have hidx : ∀ p ∈ holePairs g.numCardsInDeck board, g.getPrivateHandIdxWithTotalCards st board [p.1, p.2] =
      ((lowered board p.1).choose 2 + lowered board p.2 : Nat) := by
    intro p hp
    exact getPrivateHandIdx_eq htwo hlength hnodup hp.2.2.2 hp.1
  rw [hlength] at htop
  refine ⟨?_, ?_, ?_⟩
  · intro p hp
    have hroom := pair_lt (lowered_lt hnodup hp.1 hp.2.2.2) (lowered_lt hnodup hp.2.1 hp.2.2.1)
    rw [htop, ← numHoleCardPairs_eq htwo] at hroom
    refine ⟨?_, ?_⟩
    · dsimp only
      rw [hidx p hp]
      omega
    · dsimp only
      rw [hidx p hp]
      omega
  · intro p hp q hq heq
    dsimp only at heq
    rw [hidx p hp, hidx q hq, Int.natCast_inj] at heq
    obtain ⟨hhi, hlo⟩ := pair_inj (lowered_lt hnodup hp.1 hp.2.2.2) (lowered_lt hnodup hq.1 hq.2.2.2) heq
    exact Prod.ext (lowered_inj hnodup hp.2.2.1 hq.2.2.1 hhi) (lowered_inj hnodup hp.2.2.2 hq.2.2.2 hlo)
  · rintro k ⟨hk, hlt⟩
    obtain ⟨j, rfl⟩ := Int.eq_ofNat_of_zero_le hk
    have hj : j < (g.numCardsInDeck - board.length).choose 2 := by
      rw [hlength, ← numHoleCardPairs_eq htwo]
      omega
    obtain ⟨a, b, hba, ham, rfl⟩ := exists_pair_eq hj
    obtain ⟨hi, hhi, hhiOut, rfl⟩ := exists_lowered_eq hnodup hdeck ham
    obtain ⟨lo, hlo, hloOut, rfl⟩ := exists_lowered_eq hnodup hdeck (hba.trans ham)
    have hfalls : lo < hi := by
      rcases Nat.lt_trichotomy lo hi with hlt | rfl | hgt
      · exact hlt
      · omega
      · have := lowered_lt hnodup hgt hhiOut
        omega
    have hmem : (hi, lo) ∈ holePairs g.numCardsInDeck board := ⟨hfalls, hhi, hhiOut, hloOut⟩
    exact ⟨(hi, lo), hmem, hidx (hi, lo) hmem⟩

/-- The product that a hand index is computed from is no larger than that of the deck size and the number below it, which
the game has multiplied when it was set up. -/
theorem indexProduct_le (hnodup : board.Nodup) {p : Nat × Nat} (hp : p ∈ holePairs g.numCardsInDeck board) :
    (lowered board p.1 - 1) * lowered board p.1 ≤ (g.numCardsInDeck - 1) * g.numCardsInDeck := by
  have hbelow := lowered_lt hnodup hp.2.1 hp.2.2.1
  have htop : lowered board g.numCardsInDeck ≤ g.numCardsInDeck := Nat.sub_le _ _
  exact Nat.mul_le_mul (by omega) (by omega)

/-- On a board the private hands are numbered without gaps from zero on, and with the number of the board each board
and private hand has one number, again without gaps. -/
theorem hand_numbers_bijective (htwo : g.numHoleCards = 2) (hlength : board.length = g.numBoardCards st)
    (hnodup : board.Nodup) (hdeck : ∀ c ∈ board, c < g.numCardsInDeck) :
    Set.BijOn (fun p : Nat × Nat => g.getPrivateHandIdxWithTotalCards st board [p.1, p.2])
        (holePairs g.numCardsInDeck board)
        {k | 0 ≤ k ∧ k < ((g.numCardsInDeck - board.length) * (g.numCardsInDeck - board.length - 1) / 2 : Nat)} ∧
      ∀ (num : Nat) (boards : Nat → List Nat),
        (∀ bd < num, (boards bd).length = g.numBoardCards st ∧ (boards bd).Nodup ∧ ∀ c ∈ boards bd, c < g.numCardsInDeck) →
        Set.BijOn
            (fun x : Nat × (Nat × Nat) => (x.1 : Int) * g.numHoleCardPairs st +
              g.getPrivateHandIdxWithTotalCards st (boards x.1) [x.2.1, x.2.2])
            {x | x.1 < num ∧ x.2 ∈ holePairs g.numCardsInDeck (boards x.1)}
            {k | 0 ≤ k ∧ k < ((num * g.numHoleCardPairs st : Nat) : Int)} ∧
          (num * g.numHoleCardPairs st ≤ 4294967296 → ∀ bd < num, ∀ p ∈ holePairs g.numCardsInDeck (boards bd),
            (g.handNumber st bd (g.getPrivateHandIdxWithTotalCards st (boards bd) [p.1, p.2]) : Int) =
              (bd : Int) * g.numHoleCardPairs st + g.getPrivateHandIdxWithTotalCards st (boards bd) [p.1, p.2]) := by
  have hone := getPrivateHandIdx_bijOn htwo hlength hnodup hdeck
  rw [numHoleCardPairs, if_pos htwo, ← hlength] at hone
  refine ⟨hone, ?_⟩
  intro num boards hboards
  have hidx : ∀ bd < num, Set.BijOn (fun p : Nat × Nat => g.getPrivateHandIdxWithTotalCards st (boards bd) [p.1, p.2])
      (holePairs g.numCardsInDeck (boards bd)) {k | 0 ≤ k ∧ k < (g.numHoleCardPairs st : Nat)} := by
    intro bd hbd
    obtain ⟨hsize, hnodup, hdeck⟩ := hboards bd hbd
    exact getPrivateHandIdx_bijOn htwo hsize hnodup hdeck
  have hall := blocks_bijOn hidx
  refine ⟨hall, ?_⟩
  intro hroom bd hbd p hp
  obtain ⟨hpos, hlt⟩ := hall.mapsTo (show (bd, p) ∈ {x : Nat × (Nat × Nat) | x.1 < num ∧ _} from ⟨hbd, hp⟩)
  dsimp only at hpos hlt
  rw [handNumber]
  push_cast at hpos hlt ⊢
  omega

def twoFlops (bd : Nat) : List Nat := if bd = 0 then [51, 20, 3] else [50, 20, 3]

theorem hand_numbers_bijective_flops :
    Set.BijOn (fun p : Nat × Nat => holdem.getPrivateHandIdxWithTotalCards 1 [51, 20, 3] [p.1, p.2])
        (holePairs 52 [51, 20, 3]) {k | 0 ≤ k ∧ k < (((52 - 3) * (52 - 3 - 1) / 2 : Nat) : Int)} ∧
      Set.BijOn
        (fun x : Nat × (Nat × Nat) => (x.1 : Int) * holdem.numHoleCardPairs 1 +
          holdem.getPrivateHandIdxWithTotalCards 1 (twoFlops x.1) [x.2.1, x.2.2])
        {x | x.1 < 2 ∧ x.2 ∈ holePairs 52 (twoFlops x.1)} {k | 0 ≤ k ∧ k < ((2 * holdem.numHoleCardPairs 1 : Nat) : Int)} := by
  have hflop := hand_numbers_bijective (show holdem.numHoleCards = 2 from rfl)
    (show [51, 20, 3].length = holdem.numBoardCards 1 from rfl) (by decide) (by decide)
  exact ⟨hflop.1, (hflop.2 2 twoFlops (by decide)).1⟩

end

end SGame

end MasterAI
