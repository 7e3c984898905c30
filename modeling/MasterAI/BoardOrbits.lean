import MasterAI.MappingOrbits

namespace MasterAI

namespace SGame

section Codes

variable {g : SGame} {board canon cards : List Nat} {x y : BoardNode} {st t : Nat} {m : Nat → Nat} {σ : Equiv.Perm (Fin g.numSuits)}

/-- The codes of each suit on the streets of a board. -/
def boardCodes (g : SGame) (st : Nat) (board : List Nat) (s : Fin g.numSuits) : List Nat := g.lanes board s st

theorem lanes_congr {board' : List Nat} {s s' : Nat}
    (h : ∀ t < st, g.seenRanks (g.cardsOn board (t + 1)) s = g.seenRanks (g.cardsOn board' (t + 1)) s') :
    g.lanes board s st = g.lanes board' s' st := by
  induction st with
  | zero => rfl
  | succ st ih => rw [lanes, lanes, h st (by omega), ih fun t ht => h t (by omega)]

theorem boardCodes_cardsOn {board' : List Nat} (h : g.boardCodes st board = g.boardCodes st board') (ht : t < st) :
    g.suitCodes (g.cardsOn board (t + 1)) = g.suitCodes (g.cardsOn board' (t + 1)) := by
  funext s
  have hget := lanes_getElem g board s ht
  have hlanes : g.lanes board s st = g.lanes board' s st := congrFun h s
  rw [hlanes, lanes_getElem g board' s ht] at hget
  exact (Option.some.inj hget).symm

/-- The cards of a street behind those of the earlier ones. -/
theorem cardsOn_append (hboard : board.length = g.numBoardCards st) (hcards : cards.length = g.numCardsForStreet (st + 1)) :
    g.cardsOn (board ++ cards) (st + 1) = cards := by
  rw [cardsOn, Nat.add_sub_cancel, ← hboard, List.drop_left, ← hcards, List.take_length]

theorem cardsOn_append_of_lt (hboard : board.length = g.numBoardCards st) (hst : st ≤ g.maxStreet) (ht : t < st) :
    g.cardsOn (board ++ cards) (t + 1) = g.cardsOn board (t + 1) := by
  have hsum := numBoardCards_succ (g := g) (show t < g.maxStreet by omega)
  have hle := numBoardCards_mono (g := g) (show t + 1 ≤ st by omega)
  rw [cardsOn, cardsOn, Nat.add_sub_cancel, List.drop_append_of_le_length (by omega),
    List.take_append_of_le_length (by rw [List.length_drop]; omega)]

theorem boardCodes_append (hboard : board.length = g.numBoardCards st) (hst : st < g.maxStreet)
    (hcards : cards.length = g.numCardsForStreet (st + 1)) (s : Fin g.numSuits) :
    g.boardCodes (st + 1) (board ++ cards) s = g.suitCodes cards s :: g.boardCodes st board s := by
  rw [boardCodes, lanes, cardsOn_append hboard hcards]
  refine congrArg (List.cons _) (lanes_congr fun t ht => ?_)
  rw [cardsOn_append_of_lt hboard hst.le ht]

/-- Renamed suits give a board with the cards of each street renamed. -/
theorem canonStreets_some (hg : g.Dealable) (h : g.RawCards st board none) (hst : st ≤ g.maxStreet) (m : Nat → Nat) :
    ∃ canon, g.canonStreets m board st = some canon ∧
      canon.Perm ((board.take (g.numBoardCards st)).map (g.mapSuit m)) := by
  induction st with
  | zero => exact ⟨[], rfl, by simp [numBoardCards]⟩
  | succ st ih =>
    obtain ⟨canon, hcanon, hperm⟩ := ih (h.mono (by omega)) (by omega)
    obtain ⟨cards, hcards⟩ := sortCards_isSome ((g.cardsOn board (st + 1)).map (g.mapSuit m)) (by
      rw [List.length_map, cardsOn_length h (by omega)]
      exact hg.street (by omega))
    refine ⟨canon ++ cards, ?_, ?_⟩
    · rw [canonStreets, hcanon, Option.bind_some, hcards]
      rfl
    · rw [take_numBoardCards_succ (by omega), List.map_append]
      exact hperm.append (sortCards_perm hcards)

theorem boardCodes_canonStreets (h : g.RawCards st board none) (hst : st ≤ g.maxStreet) (hm : g.SuitPerm m)
    (hcanon : g.canonStreets m board st = some canon) :
    g.boardCodes st canon ∘ hm.toPerm = g.boardCodes st board := by
  funext s
  refine lanes_congr fun t ht => ?_
  rw [seenRanks_perm (sortCards_perm ((canonStreets_cardsOn h hst hcanon).2 t ht)), hm.toPerm_val, hm.seenRanks_map s.isLt]

end Codes

section Listed

variable {g : SGame} {x y : BoardNode} {st : Nat} {σ : Equiv.Perm (Fin g.numSuits)}

/-- The groups of a listed board are the suits with the same codes. -/
theorem groupOf_streetBoards (hg : g.Dealable) (hst : st ≤ g.maxStreet) (hx : x ∈ g.streetBoards st)
    (s t : Fin g.numSuits) : groupOf x.2 s = groupOf x.2 t ↔ g.boardCodes st x.1 s = g.boardCodes st x.1 t := by
  have hsuits := hg.suits
  induction st generalizing x with
  | zero =>
    rw [streetBoards, descend, List.mem_singleton] at hx
    rw [hx, groupOf_noGroups, groupOf_noGroups]
    exact ⟨fun _ => rfl, fun _ => rfl⟩
  | succ st ih =>
    rw [streetBoards_succ, List.mem_flatMap] at hx
    obtain ⟨z, hz, hx⟩ := hx
    have hvalid := streetBoards_valid hg (by omega) hz
    obtain ⟨cards, hcards, _, rfl⟩ := (mem_nextBoards hg (by omega) hvalid).mp hx
    have hlength := (mem_fallingCards.mp hcards).1
    have hbefore : groupOf z.2 s = groupOf z.2 t ↔ g.boardCodes st z.1 s = g.boardCodes st z.1 t := ih (by omega) hz
    rw [updateSuitGroups_eq_iff hsuits s.isLt t.isLt, hbefore, boardCodes_append hvalid.length (by omega) hlength,
      boardCodes_append hvalid.length (by omega) hlength, List.cons.injEq, and_comm]
    rfl

/-- Two listed boards of which one comes from the other by a permutation of the suits are one. -/
theorem streetBoards_unique (hg : g.Dealable) (hst : st ≤ g.maxStreet) (hx : x ∈ g.streetBoards st)
    (hy : y ∈ g.streetBoards st) (hσ : g.boardCodes st y.1 = g.boardCodes st x.1 ∘ σ) : y = x := by
  induction st generalizing x y with
  | zero =>
    rw [streetBoards, descend, List.mem_singleton] at hx hy
    rw [hx, hy]
  | succ st ih =>
    rw [streetBoards_succ, List.mem_flatMap] at hx hy
    obtain ⟨z, hz, hx⟩ := hx
    obtain ⟨w, hw, hy⟩ := hy
    have hvalid := streetBoards_valid hg (by omega) hz
    have hvalid' := streetBoards_valid hg (by omega) hw
    obtain ⟨cards, hcards, hfalls, rfl⟩ := (mem_nextBoards hg (by omega) hvalid).mp hx
    obtain ⟨cards', hcards', hfalls', rfl⟩ := (mem_nextBoards hg (by omega) hvalid').mp hy
    obtain ⟨hlength, hfall, _⟩ := mem_fallingCards.mp hcards
    obtain ⟨hlength', hfall', _⟩ := mem_fallingCards.mp hcards'
    have hboth : ∀ s, g.suitCodes cards' s = g.suitCodes cards (σ s) ∧ g.boardCodes st w.1 s = g.boardCodes st z.1 (σ s) := by
      intro s
      have hs := congrFun hσ s
      rw [Function.comp_apply, boardCodes_append hvalid'.length (by omega) hlength',
        boardCodes_append hvalid.length (by omega) hlength] at hs
      exact List.cons.inj hs
    obtain rfl : w = z := ih (by omega) hz hw (funext fun s => (hboth s).2)
    have hlabels : σ ∈ labelPerms (g.groupLabels w.2) :=
      mem_labelPerms.mpr fun s => (groupOf_streetBoards hg (by omega) hz (σ s) s).mpr (hboth s).2.symm
    have hcodes : g.suitCodes cards' = g.suitCodes cards ∘ σ := funext fun s => (hboth s).1
    have hsame : g.suitCodes cards ∘ σ = g.suitCodes cards := by
      refine FallingLabels.unique (f := g.groupLabels w.2) (fun s t hst hsame => hfalls s t hst t.isLt hsame) ?_ hlabels
      rw [← hcodes]
      exact fun s t hst hsame => hfalls' s t hst t.isLt hsame
    rw [falling_of_suitCodes hfall' hfall (hcodes.trans hsame)]

theorem mem_labelPerms_noGroups (σ : Equiv.Perm (Fin g.numSuits)) :
    σ ∈ labelPerms (g.groupLabels noGroups) := by
  refine mem_labelPerms.mpr fun s => ?_
  rw [groupLabels, groupLabels, groupOf_noGroups, groupOf_noGroups]

/-- A board is canonicalized to a listed one exactly where a permutation of the suits makes it from this one. -/
theorem canonStreets_iff (hg : g.Playable) (hst : st ≤ g.maxStreet) (hx : x ∈ g.streetBoards st) {board : List Nat}
    (h : g.RawCards st board none) :
    g.canonStreets (g.suitMapping board none st) board st = some x.1 ↔
      g.boardCodes st board ∈ codeOrbit (g.groupLabels noGroups) (g.boardCodes st x.1) := by
  have hm := suitMapping_perm hg h hst
  obtain ⟨canon, sg, hcanon, hmem, _⟩ := canonStreets_listed hg h hst le_rfl
  have hcodes := boardCodes_canonStreets h hst hm hcanon
  rw [mem_codeOrbit]
  constructor
  · intro heq
    obtain rfl := Option.some.inj (hcanon.symm.trans heq)
    exact ⟨hm.toPerm, mem_labelPerms_noGroups _, hcodes⟩
  · rintro ⟨σ, _, hσ⟩
    have hback : g.boardCodes st canon = g.boardCodes st x.1 ∘ (σ * hm.toPerm⁻¹ : Equiv.Perm (Fin g.numSuits)) := by
      funext s
      have hs := congrFun (hcodes.trans hσ.symm) (hm.toPerm⁻¹ s)
      have hround : hm.toPerm (hm.toPerm⁻¹ s) = s := hm.toPerm.apply_symm_apply s
      rw [Function.comp_apply, hround] at hs
      exact hs
    have hsame := streetBoards_unique hg.toDealable hst hx hmem hback
    rw [hcanon, ← hsame]

end Listed

end SGame

end MasterAI
