import MasterAI.RawBoards
import Mathlib.Algebra.BigOperators.Group.Finset.Basic

namespace MasterAI

namespace SGame

section

variable (g : SGame)

/-- The suit groups behind a street of a board. -/
def boardGroups (board : List Nat) : Nat → SuitGroups
  | 0 => noGroups
  | st + 1 => g.updateSuitGroups (g.cardsOn board (st + 1)) (boardGroups board st)

/-- The number of variants of the cards that come behind a street of a board. -/
def boardVariants (board : List Nat) (st : Nat) : Nat :=
  (g.entryOf (g.boardGroups board st) (g.cardsOn board (st + 1))).numVariants

variable {g} {st t left : Nat} {board cards : List Nat} {x : BoardNode} {T T' : BoardTables} {tree : PCardTree}

theorem boardGroups_append (hboard : board.length = g.numBoardCards st) (hst : st ≤ g.maxStreet) (ht : t ≤ st) :
    g.boardGroups (board ++ cards) t = g.boardGroups board t := by
  induction t with
  | zero => rfl
  | succ t ih => rw [boardGroups, boardGroups, ih (by omega), cardsOn_append_of_lt hboard hst (by omega)]

theorem boardVariants_append (hboard : board.length = g.numBoardCards st) (hst : st ≤ g.maxStreet) (ht : t < st) :
    g.boardVariants (board ++ cards) t = g.boardVariants board t := by
  rw [boardVariants, boardVariants, boardGroups_append hboard hst ht.le, cardsOn_append_of_lt hboard hst ht]

theorem boardVariants_last (hboard : board.length = g.numBoardCards st) (hst : st ≤ g.maxStreet)
    (hcards : cards.length = g.numCardsForStreet (st + 1)) :
    g.boardVariants (board ++ cards) st = (g.entryOf (g.boardGroups board st) cards).numVariants := by
  rw [boardVariants, boardGroups_append hboard hst le_rfl, cardsOn_append hboard hcards]

theorem boardGroups_streetBoards (hg : g.Dealable) (hst : st ≤ g.maxStreet) (hx : x ∈ g.streetBoards st) :
    x.2 = g.boardGroups x.1 st := by
  induction st generalizing x with
  | zero =>
    rw [streetBoards, descend, List.mem_singleton] at hx
    rw [hx]
    rfl
  | succ st ih =>
    rw [streetBoards_succ, List.mem_flatMap] at hx
    obtain ⟨z, hz, hx⟩ := hx
    have hvalid := streetBoards_valid hg (by omega) hz
    obtain ⟨cards, hcards, _, rfl⟩ := (mem_nextBoards hg (by omega) hvalid).mp hx
    rw [boardGroups, boardGroups_append hvalid.length (by omega) le_rfl,
      cardsOn_append hvalid.length (mem_fallingCards.mp hcards).1, ← ih (by omega) hz]

/-- The variants along a listed board multiply to the permutations up to those that keep its groups. -/
theorem prod_boardVariants (hg : g.Dealable) (hst : st ≤ g.maxStreet) (hx : x ∈ g.streetBoards st) :
    (∏ t ∈ Finset.range st, g.boardVariants x.1 t) * groupOrder g.numSuits x.2 = groupOrder g.numSuits noGroups := by
  induction st generalizing x with
  | zero =>
    rw [streetBoards, descend, List.mem_singleton] at hx
    rw [hx, Finset.prod_range_zero, Nat.one_mul]
  | succ st ih =>
    rw [streetBoards_succ, List.mem_flatMap] at hx
    obtain ⟨z, hz, hx⟩ := hx
    have hvalid := streetBoards_valid hg (by omega) hz
    have hgroups := boardGroups_streetBoards hg (by omega) hz
    obtain ⟨cards, hcards, hfalls, rfl⟩ := (mem_nextBoards hg (by omega) hvalid).mp hx
    obtain ⟨hlength, hfall, _⟩ := mem_fallingCards.mp hcards
    have hstreet := hg.street (show st < g.maxStreet by omega)
    obtain ⟨m, hm, hpos⟩ : g.Canonical z.2 cards := (canonical_iff hg.suits hvalid.groups hfall).mpr
      fun s t hst hsame => hfalls s t hst t.isLt hsame
    have hbefore : ∏ t ∈ Finset.range st, g.boardVariants (z.1 ++ cards) t = ∏ t ∈ Finset.range st, g.boardVariants z.1 t :=
      Finset.prod_congr rfl fun t ht => boardVariants_append hvalid.length (by omega) (Finset.mem_range.mp ht)
    rw [Finset.prod_range_succ, hbefore, boardVariants_last hvalid.length (by omega) hlength, ← hgroups,
      entryOf_numVariants hg.suits hvalid.groups hfall (by omega) hm, Nat.mul_assoc,
      numMappings_order hg.suits hvalid.groups hfall hm hpos.ne']
    exact ih (by omega) hz

/-- The raw boards that a listed board stands for are as many as the product of its variants. -/
theorem countP_eq_prod (hg : g.Playable) (hst : st ≤ g.maxStreet) (hx : x ∈ g.streetBoards st) :
    ((g.rawBoards st).countP fun board => g.canonStreets (g.suitMapping board none st) board st = some x.1) =
      ∏ t ∈ Finset.range st, g.boardVariants x.1 t := by
  have hvalid := (streetBoards_valid hg.toDealable hst hx).groups
  have hcard := card_codeOrbit (g.groupLabels noGroups) (g.boardCodes st x.1)
  have hroot := noGroups_valid g.numSuits
  have hkept : (labelPerms fun s => (g.groupLabels noGroups s, g.boardCodes st x.1 s)) = labelPerms (g.groupLabels x.2) := by
    refine labelPerms_congr fun s t => ?_
    rw [Prod.mk.injEq, groupLabels, groupLabels, groupOf_noGroups, groupOf_noGroups, and_iff_right rfl]
    exact (groupOf_streetBoards hg.toDealable hst hx s t).symm
  rw [hkept, card_labelPerms_groups hvalid, card_labelPerms_groups hroot, ← prod_boardVariants hg.toDealable hst hx] at hcard
  rw [countP_rawBoards hg hst hx]
  exact Nat.eq_of_mul_eq_mul_right (groupOrder_pos hvalid) hcard

/-- The table keeps the number of variants of the last cards of every board. -/
def Counted (g : SGame) (T : BoardTables) : Prop :=
  ∀ st bd, bd < T.bds (st + 1) → T.variants (st + 1) bd = g.boardVariants (T.boards (st + 1) bd) st

theorem Counted.assign (h : g.Counted T) {e : TypicalEntry} (he : e.numVariants = g.boardVariants board st) :
    g.Counted (T.assign (st + 1) board e) := by
  intro t bd hbd
  unfold BoardTables.assign at hbd ⊢
  dsimp only at hbd ⊢
  by_cases ht : t = st
  · subst ht
    rw [Function.update_self] at hbd ⊢
    rw [Function.update_self]
    by_cases hlast : bd = T.bds (t + 1)
    · rw [hlast, Function.update_self, Function.update_self, he]
    · rw [Function.update_of_ne hlast, Function.update_of_ne hlast]
      exact h t bd (by omega)
  · have hne : t + 1 ≠ st + 1 := by omega
    rw [Function.update_of_ne hne] at hbd ⊢
    rw [Function.update_of_ne hne]
    exact h t bd hbd

theorem Counted.close (h : g.Counted T) (maxStreet st bd : Nat) (starts : Nat → Nat) :
    g.Counted (T.close maxStreet st bd starts) := h

/-- `Build` keeps it. -/
theorem build_counted (hg : g.Dealable) (hleft : st + left = g.maxStreet) (hx : g.ValidNode st x)
    (hgroups : x.2 = g.boardGroups x.1 st) (hT : g.Counted T) (h : g.build left (st + 1) x.1 x.2 T = some T') :
    g.Counted T' := by
  induction left generalizing st x T T' with
  | zero =>
    rw [build, Option.some.injEq] at h
    rwa [← h]
  | succ left ih =>
    have hst : st < g.maxStreet := by omega
    rw [build, typicalCards_eq hg.suits hx.groups hx.nodup hx.cards (hg.street hst), Option.bind_some] at h
    have hentries : ∀ e ∈ (fallingCards x.1 (g.numCardsForStreet (st + 1)) g.numCardsInDeck).map (g.entryOf x.2),
        e.numVariants = g.boardVariants (x.1 ++ e.cards) st ∧ e.suitGroups = g.boardGroups (x.1 ++ e.cards) (st + 1) ∧
          (e.numVariants ≠ 0 → g.ValidNode (st + 1) (x.1 ++ e.cards, e.suitGroups)) := by
      intro e he
      obtain ⟨cards, hcards, rfl⟩ := List.mem_map.mp he
      have hlength := (mem_fallingCards.mp hcards).1
      refine ⟨?_, ?_, fun hne => hx.next hg hst (List.mem_map.mpr ⟨_, List.mem_filter.mpr ⟨he, by simpa using hne⟩, rfl⟩)⟩
      · change _ = g.boardVariants (x.1 ++ cards) st
        rw [boardVariants_last hx.length hst.le hlength, ← hgroups]
      · change _ = g.boardGroups (x.1 ++ cards) (st + 1)
        rw [boardGroups, boardGroups_append hx.length hst.le le_rfl, cardsOn_append hx.length hlength, ← hgroups]
        rfl
    generalize (fallingCards x.1 (g.numCardsForStreet (st + 1)) g.numCardsInDeck).map (g.entryOf x.2) = entries at h hentries
    induction entries generalizing T with
    | nil =>
      rw [List.foldlM_nil, Option.pure_def, Option.some.injEq] at h
      rwa [← h]
    | cons e entries ihe =>
      obtain ⟨hvariants, hnext, hvalid⟩ := hentries e (by simp)
      have hrest := fun e' he' => hentries e' (List.mem_cons_of_mem _ he')
      rw [List.foldlM_cons] at h
      obtain ⟨T₁, hT₁, h⟩ := Option.bind_eq_some_iff.mp h
      split at hT₁
      next =>
        rw [Option.some.injEq] at hT₁
        exact ihe (by rwa [← hT₁]) h hrest
      next hne =>
        obtain ⟨T₂, hT₂, rfl⟩ := Option.map_eq_some_iff.mp hT₁
        have hbelow := ih (by omega) (hvalid hne) hnext (hT.assign hvariants) hT₂
        exact ihe (hbelow.close _ _ _ _) h hrest

theorem create_variants (hg : g.Dealable) (h : g.create = some tree) :
    ∀ st < g.maxStreet, ∀ bd < tree.numBoards (st + 1),
      tree.variants (st + 1) bd = g.boardVariants (tree.boards (st + 1) bd) st := by
  unfold create at h
  obtain ⟨num, _, h⟩ := Option.bind_eq_some_iff.mp h
  obtain ⟨T, hT, h⟩ := Option.bind_eq_some_iff.mp h
  split at h
  · cases h
  · rename_i hcheck
    obtain rfl := Option.some.inj h
    intro st hst bd hbd
    have hbds : T.bds (st + 1) = num (st + 1) := by
      by_contra hne
      exact hcheck (List.any_eq_true.mpr ⟨st, List.mem_range.mpr hst, by simpa using hne⟩)
    have hcounted : g.Counted T := build_counted hg (Nat.zero_add _) ValidNode.root rfl
      (fun st bd hbd => absurd hbd (Nat.not_lt_zero bd)) hT
    exact hcounted st bd (by rw [hbds]; exact hbd)

end

end SGame

end MasterAI
