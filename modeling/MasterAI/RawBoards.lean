import MasterAI.BoardOrbits

namespace MasterAI

namespace SGame

section

variable (g : SGame)

/-- The raw boards that a street makes of a board. -/
def rawNext (st : Nat) (board : List Nat) : List (List Nat) :=
  (fallingCards board (g.numCardsForStreet (st + 1)) g.numCardsInDeck).map fun cards => board ++ cards

/-- The raw boards of a street, in the order in which they are dealt. -/
def rawBoards (st : Nat) : List (List Nat) := descend g.rawNext st 0 []

/-- Different cards of the deck that fall on every street. -/
structure RawBoard (st : Nat) (board : List Nat) : Prop where
  length : board.length = g.numBoardCards st
  nodup : board.Nodup
  cards : ∀ c ∈ board, c < g.numCardsInDeck
  falls : ∀ t < st, (g.cardsOn board (t + 1)).Pairwise (· > ·)

variable {g} {st : Nat} {board other cards : List Nat} {x : BoardNode}

theorem RawBoard.rawCards (h : g.RawBoard st board) : g.RawCards st board none := by
  have hall : board.take (g.numBoardCards st) = board := by
    rw [← h.length, List.take_length]
  refine ⟨h.length.ge, ?_, ?_, by simp⟩
  · rw [hall]
    exact h.nodup
  · rw [hall]
    exact h.cards

theorem RawBoard.root : g.RawBoard 0 [] := ⟨rfl, List.nodup_nil, by simp, by omega⟩

theorem RawBoard.append_iff (hst : st < g.maxStreet) (hboard : g.RawBoard st board) :
    g.RawBoard (st + 1) (board ++ cards) ↔ cards ∈ fallingCards board (g.numCardsForStreet (st + 1)) g.numCardsInDeck := by
  have hsum := numBoardCards_succ hst
  rw [mem_fallingCards]
  constructor
  · intro h
    have hlength := h.length
    rw [List.length_append, hboard.length, hsum] at hlength
    have hcards : cards.length = g.numCardsForStreet (st + 1) := by omega
    have hfalls := h.falls st (by omega)
    rw [cardsOn_append hboard.length hcards] at hfalls
    refine ⟨hcards, hfalls, fun c hc => ⟨h.cards c (List.mem_append_right _ hc), fun hin => ?_⟩⟩
    exact (List.nodup_append.mp h.nodup).2.2 c hin c hc rfl
  · rintro ⟨hlength, hfalls, hnew⟩
    refine ⟨by rw [List.length_append, hboard.length, hlength, hsum], ?_, ?_, fun t ht => ?_⟩
    · refine List.nodup_append.mpr ⟨hboard.nodup, hfalls.imp fun hgt => Nat.ne_of_gt hgt, fun c hc d hd heq => ?_⟩
      exact (hnew d hd).2 (heq ▸ hc)
    · intro c hc
      rcases List.mem_append.mp hc with hc | hc
      · exact hboard.cards c hc
      · exact (hnew c hc).1
    · rcases Nat.lt_succ_iff_lt_or_eq.mp ht with hlt | rfl
      · rw [cardsOn_append_of_lt hboard.length hst.le hlt]
        exact hboard.falls t hlt
      · rw [cardsOn_append hboard.length hlength]
        exact hfalls

/-- A raw board without the cards of its last street. -/
theorem RawBoard.init (h : g.RawBoard (st + 1) board) (hst : st < g.maxStreet) :
    g.RawBoard st (board.take (g.numBoardCards st)) := by
  have hle := numBoardCards_mono (g := g) (Nat.le_succ st)
  have hlength : (board.take (g.numBoardCards st)).length = g.numBoardCards st :=
    List.length_take_of_le (by rw [h.length]; exact hle)
  refine ⟨hlength, h.nodup.sublist (List.take_sublist _ _), fun c hc => h.cards c (List.mem_of_mem_take hc), fun t ht => ?_⟩
  have hcards := h.falls t (by omega)
  rw [← List.take_append_drop (g.numBoardCards st) board, cardsOn_append_of_lt hlength hst.le ht] at hcards
  exact hcards

theorem rawBoards_succ : g.rawBoards (st + 1) = (g.rawBoards st).flatMap (g.rawNext st) := by
  rw [rawBoards, descend_add, Nat.zero_add]
  refine congrArg (List.flatMap · (g.rawBoards st)) (funext fun board => ?_)
  simp [descend]

theorem mem_rawBoards (hst : st ≤ g.maxStreet) : board ∈ g.rawBoards st ↔ g.RawBoard st board := by
  induction st generalizing board with
  | zero =>
    rw [rawBoards, descend, List.mem_singleton]
    constructor
    · rintro rfl
      exact RawBoard.root
    · exact fun h => List.length_eq_zero_iff.mp h.length
  | succ st ih =>
    rw [rawBoards_succ, List.mem_flatMap]
    constructor
    · rintro ⟨first, hfirst, hboard⟩
      obtain ⟨cards, hcards, rfl⟩ := List.mem_map.mp hboard
      exact (((ih (by omega)).mp hfirst).append_iff (by omega)).mpr hcards
    · intro h
      have hinit := h.init (by omega)
      refine ⟨_, (ih (by omega)).mpr hinit, List.mem_map.mpr ⟨board.drop (g.numBoardCards st), ?_, List.take_append_drop _ _⟩⟩
      rw [← hinit.append_iff (by omega), List.take_append_drop]
      exact h

theorem rawBoards_nodup (hst : st ≤ g.maxStreet) : (g.rawBoards st).Nodup := by
  induction st with
  | zero => exact List.nodup_singleton _
  | succ st ih =>
    rw [rawBoards_succ, List.nodup_flatMap]
    refine ⟨fun board _ => fallingCards_nodup.map fun cards cards' heq => List.append_cancel_left heq, ?_⟩
    refine (ih (by omega)).imp_of_mem fun {board board'} hboard hboard' hne other hother hother' => hne ?_
    obtain ⟨cards, _, rfl⟩ := List.mem_map.mp hother
    obtain ⟨cards', _, heq⟩ := List.mem_map.mp hother'
    have hlength := ((mem_rawBoards (by omega)).mp hboard).length
    have hlength' := ((mem_rawBoards (by omega)).mp hboard').length
    exact (List.append_inj_left heq (hlength'.trans hlength.symm)).symm

/-- The codes tell a raw board. -/
theorem RawBoard.ext (h : g.RawBoard st board) (h' : g.RawBoard st other) (hst : st ≤ g.maxStreet)
    (hcodes : g.boardCodes st board = g.boardCodes st other) : board = other := by
  induction st generalizing board other with
  | zero => rw [List.length_eq_zero_iff.mp h.length, List.length_eq_zero_iff.mp h'.length]
  | succ st ih =>
    have hinit := h.init (by omega)
    have hinit' := h'.init (by omega)
    have hlast := take_numBoardCards_succ (g := g) (show st < g.maxStreet by omega) board
    have hlast' := take_numBoardCards_succ (g := g) (show st < g.maxStreet by omega) other
    rw [← h.length, List.take_length] at hlast
    rw [← h'.length, List.take_length] at hlast'
    have hcards : g.cardsOn board (st + 1) = g.cardsOn other (st + 1) :=
      falling_of_suitCodes (h.falls st (by omega)) (h'.falls st (by omega)) (boardCodes_cardsOn hcodes (by omega))
    rw [hlast, hlast', hcards]
    refine congrArg (· ++ _) (ih hinit hinit' (by omega) (funext fun s => lanes_congr fun t ht => ?_))
    have hsame := congrFun (boardCodes_cardsOn hcodes (show t < st + 1 by omega)) s
    have htake : ∀ {l : List Nat}, g.RawBoard st (l.take (g.numBoardCards st)) →
        g.cardsOn (l.take (g.numBoardCards st)) (t + 1) = g.cardsOn l (t + 1) := by
      intro l hl
      conv_rhs => rw [← List.take_append_drop (g.numBoardCards st) l]
      rw [cardsOn_append_of_lt hl.length (by omega) ht]
    rw [htake hinit, htake hinit']
    exact hsame

/-- Every permutation of the suits makes a raw board of a raw board. -/
theorem RawBoard.exists_image (hg : g.Dealable) (h : g.RawBoard st board) (hst : st ≤ g.maxStreet)
    (σ : Equiv.Perm (Fin g.numSuits)) :
    ∃ other, g.RawBoard st other ∧ g.boardCodes st other = g.boardCodes st board ∘ σ := by
  have hm := suitPerm_suitMap σ⁻¹
  have hraw := h.rawCards
  obtain ⟨other, hother, hperm⟩ := canonStreets_some hg hraw hst (suitMap σ⁻¹)
  obtain ⟨hlength, hcards⟩ := canonStreets_cardsOn hraw hst hother
  have hcodes := boardCodes_canonStreets hraw hst hm hother
  rw [← h.length, List.take_length] at hperm
  refine ⟨other, ⟨hlength, hperm.nodup_iff.mpr (hm.nodup_map h.nodup), fun c hc => ?_, fun t ht => ?_⟩, ?_⟩
  · obtain ⟨d, hd, rfl⟩ := List.mem_map.mp (hperm.mem_iff.mp hc)
    exact hm.mapSuit_lt (h.cards d hd)
  · refine sortCards_falling (hcards t ht) (hm.nodup_map ?_)
    exact (h.falls t ht).imp fun hgt => Nat.ne_of_gt hgt
  · funext s
    rw [← hcodes]
    refine congrArg (g.boardCodes st other) (Fin.ext ?_)
    rw [hm.toPerm_val, suitMap_val]
    exact (congrArg Fin.val (σ.symm_apply_apply s)).symm

theorem streetBoards_raw (hg : g.Dealable) (hst : st ≤ g.maxStreet) (hx : x ∈ g.streetBoards st) : g.RawBoard st x.1 := by
  induction st generalizing x with
  | zero =>
    rw [streetBoards, descend, List.mem_singleton] at hx
    rw [hx]
    exact RawBoard.root
  | succ st ih =>
    rw [streetBoards_succ, List.mem_flatMap] at hx
    obtain ⟨z, hz, hx⟩ := hx
    obtain ⟨cards, hcards, _, rfl⟩ := (mem_nextBoards hg (by omega) (streetBoards_valid hg (by omega) hz)).mp hx
    exact ((ih (by omega) hz).append_iff (by omega)).mpr hcards

/-- The raw boards that stand for a listed board are as many as the images of its codes. -/
theorem countP_rawBoards (hg : g.Playable) (hst : st ≤ g.maxStreet) (hx : x ∈ g.streetBoards st) :
    ((g.rawBoards st).countP fun board => g.canonStreets (g.suitMapping board none st) board st = some x.1) =
      (codeOrbit (g.groupLabels noGroups) (g.boardCodes st x.1)).card := by
  rw [List.countP_eq_length_filter, ← List.toFinset_card_of_nodup ((rawBoards_nodup hst).filter _)]
  have hmem : ∀ board, board ∈ ((g.rawBoards st).filter fun board =>
      g.canonStreets (g.suitMapping board none st) board st = some x.1).toFinset ↔
        g.RawBoard st board ∧ g.boardCodes st board ∈ codeOrbit (g.groupLabels noGroups) (g.boardCodes st x.1) := by
    intro board
    rw [List.mem_toFinset, List.mem_filter, mem_rawBoards hst, decide_eq_true_eq]
    exact and_congr_right fun hboard => canonStreets_iff hg hst hx hboard.rawCards
  refine Finset.card_nbij (g.boardCodes st) (fun board hboard => ((hmem board).mp hboard).2) ?_ ?_
  · intro board hboard other hother heq
    exact ((hmem board).mp hboard).1.ext ((hmem other).mp hother).1 hst heq
  · intro codes hcodes
    obtain ⟨σ, hσ, rfl⟩ := mem_codeOrbit.mp hcodes
    obtain ⟨other, hother, hcodes⟩ := (streetBoards_raw hg.toDealable hst hx).exists_image hg.toDealable hst σ
    refine ⟨other, (hmem other).mpr ⟨hother, ?_⟩, hcodes⟩
    rw [hcodes]
    exact mem_codeOrbit.mpr ⟨σ, hσ, rfl⟩

end

end SGame

end MasterAI
