import MasterAI.CanonicalCards

namespace MasterAI

section

variable {α : Type} [LinearOrder α] {cards cards' : List α}

/-- Cards that are the same as a set are sorted to the same list. -/
theorem sortCards_congr (hlength : cards.length = 1 ∨ cards.length = 2 ∨ cards.length = 3) (hnodup : cards.Nodup)
    (hnodup' : cards'.Nodup) (hsame : ∀ c, c ∈ cards ↔ c ∈ cards') : sortCards cards = sortCards cards' := by
  have hperm := (List.perm_ext_iff_of_nodup hnodup hnodup').mpr hsame
  obtain ⟨sorted, hsorted⟩ := sortCards_isSome cards hlength
  obtain ⟨sorted', hsorted'⟩ := sortCards_isSome cards' (by rw [← hperm.length_eq]; exact hlength)
  have hboth : sorted.Perm sorted' := (sortCards_perm hsorted).trans (hperm.trans (sortCards_perm hsorted').symm)
  have hequal : sorted = sorted' := by
    refine List.Perm.eq_of_pairwise ?_ (sortCards_falling hsorted hnodup) (sortCards_falling hsorted' hnodup') hboth
    intro a b _ _ hab hba
    exact absurd hab (lt_asymm hba)
  rw [hsorted, hsorted', hequal]

end

namespace SGame

section

variable {g : SGame} {cards cards' board board' hole hole' canon : List Nat} {st t s p c : Nat} {m m' : Nat → Nat}

theorem mem_iff_testBit (g : SGame) (cards : List Nat) (c : Nat) :
    c ∈ cards ↔ (g.seenRanks cards (g.suit c)).testBit (g.rank c) = true := by
  rw [testBit_seenRanks]
  constructor
  · intro hc
    exact ⟨c, hc, rfl, rfl⟩
  · rintro ⟨d, hd, hsuit, hrank⟩
    rw [← card_eq (g := g) c, ← hsuit, ← hrank, card_eq]
    exact hd

theorem SuitPerm.mapSuit_mapSuit (hm : g.SuitPerm m) (m' : Nat → Nat) (c : Nat) :
    g.mapSuit m' (g.mapSuit m c) = g.mapSuit (fun s => m' (m s)) c := by
  rw [mapSuit, hm.rank_mapSuit, hm.suit_mapSuit]
  rfl

theorem SuitPerm.mem_map (hm : g.SuitPerm m) (cards : List Nat) : g.mapSuit m c ∈ cards.map (g.mapSuit m) ↔ c ∈ cards := by
  constructor
  · intro h
    obtain ⟨d, hd, heq⟩ := List.mem_map.mp h
    rw [← hm.mapSuit_inj heq]
    exact hd
  · exact List.mem_map_of_mem

theorem SuitPerm.comp (hm : g.SuitPerm m) (hm' : g.SuitPerm m') : g.SuitPerm fun s => m' (m s) := by
  refine ⟨fun s hs => hm'.lt _ (hm.lt s hs), ?_⟩
  intro s hs t ht heq
  exact hm.inj s hs t ht (hm'.inj _ (hm.lt s hs) _ (hm.lt t ht) heq)

theorem SuitPerm.range_perm (hm : g.SuitPerm m) : ((List.range g.numSuits).map m).Perm (List.range g.numSuits) := by
  have hnodup : ((List.range g.numSuits).map m).Nodup := by
    refine List.nodup_range.map_on ?_
    intro s hs t ht heq
    exact hm.inj s (List.mem_range.mp hs) t (List.mem_range.mp ht) heq
  have hsub : (List.range g.numSuits).map m ⊆ List.range g.numSuits := by
    intro s hs
    obtain ⟨t, ht, rfl⟩ := List.mem_map.mp hs
    exact List.mem_range.mpr (hm.lt t (List.mem_range.mp ht))
  refine (List.subperm_of_subset hnodup hsub).perm_of_length_le ?_
  rw [List.length_map]

/-- Two deals that a permutation of the suits carries into each other, up to the order of the hole cards and
of the cards of each street. -/
def SameUpToSuits (g : SGame) (st : Nat) (board hole board' hole' : List Nat) : Prop :=
  ∃ m, g.SuitPerm m ∧ (∀ c, c ∈ hole' ↔ c ∈ hole.map (g.mapSuit m)) ∧
    ∀ t < st, ∀ c, c ∈ g.cardsOn board' (t + 1) ↔ c ∈ (g.cardsOn board (t + 1)).map (g.mapSuit m)

/-- The canonical board has the canonical cards of each street. -/
theorem canonStreets_cardsOn {rawHole : Option (List Nat)} (h : g.RawCards st board rawHole) (hst : st ≤ g.maxStreet)
    (hcanon : g.canonStreets m board st = some canon) :
    canon.length = g.numBoardCards st ∧
      ∀ t < st, sortCards ((g.cardsOn board (t + 1)).map (g.mapSuit m)) = some (g.cardsOn canon (t + 1)) := by
  induction st generalizing canon with
  | zero =>
    rw [canonStreets, Option.some.injEq] at hcanon
    rw [← hcanon]
    exact ⟨rfl, by omega⟩
  | succ st ih =>
    rw [canonStreets, Option.bind_eq_some_iff] at hcanon
    obtain ⟨first, hfirst, hcards⟩ := hcanon
    obtain ⟨cards, hsorted, rfl⟩ := Option.map_eq_some_iff.mp hcards
    obtain ⟨hlength, hbefore⟩ := ih (h.mono (by omega)) (by omega) hfirst
    have hcardsLength : cards.length = g.numCardsForStreet (st + 1) := by
      rw [(sortCards_perm hsorted).length_eq, List.length_map, cardsOn_length h (by omega)]
    refine ⟨by rw [List.length_append, hlength, hcardsLength, numBoardCards_succ (by omega)], ?_⟩
    intro t ht
    by_cases hlast : t = st
    · rw [hlast, hsorted, cardsOn, Nat.add_sub_cancel, ← hlength, List.drop_left, ← hcardsLength, List.take_length]
    · have hsum := numBoardCards_succ (g := g) (show t < g.maxStreet by omega)
      have hle := numBoardCards_mono (g := g) (show t + 1 ≤ st by omega)
      rw [hbefore t (by omega), cardsOn, cardsOn, Nat.add_sub_cancel, List.drop_append_of_le_length (by omega),
        List.take_append_of_le_length (by rw [List.length_drop]; omega)]

theorem lanes_getElem (g : SGame) (board : List Nat) (s : Nat) (ht : t < st) :
    (g.lanes board s st)[st - 1 - t]? = some (g.seenRanks (g.cardsOn board (t + 1)) s) := by
  induction st with
  | zero => omega
  | succ st ih =>
    rw [lanes]
    by_cases hlast : t = st
    · rw [hlast, Nat.add_sub_cancel, Nat.sub_self]
      rfl
    · rw [show st + 1 - 1 - t = st - 1 - t + 1 by omega, List.getElem?_cons_succ]
      exact ih (by omega)

theorem canonicalizeCards_some {canonHole : Option (List Nat)} (hlength : hole.length = g.numHoleCards) :
    g.canonicalizeCards board (some hole) st = some (canon, canonHole) ↔
      g.canonStreets (g.suitMapping board (some hole) st) board st = some canon ∧
        ∃ sorted, sortCards (hole.map (g.mapSuit (g.suitMapping board (some hole) st))) = some sorted ∧
          canonHole = some sorted := by
  unfold canonicalizeCards
  dsimp only
  rw [List.take_of_length_le hlength.le, Option.bind_eq_some_iff]
  constructor
  · rintro ⟨first, hfirst, hcards⟩
    obtain ⟨sorted, hsorted, heq⟩ := Option.map_eq_some_iff.mp hcards
    rw [Prod.mk.injEq] at heq
    rw [← heq.1]
    exact ⟨hfirst, sorted, hsorted, heq.2.symm⟩
  · rintro ⟨hfirst, sorted, hsorted, rfl⟩
    exact ⟨canon, hfirst, by rw [hsorted]; rfl⟩

/-- The mapped cards depend only on the codes of the suits at each place. -/
theorem mem_mapped_congr {at' : Nat → Nat} {a : Nat → Nat} (hm : g.SuitPerm m) (hm' : g.SuitPerm m')
    (ha : ∀ p < g.numSuits, a p < g.numSuits ∧ m (a p) = p) (ha' : ∀ p < g.numSuits, at' p < g.numSuits ∧ m' (at' p) = p)
    (hcodes : ∀ p < g.numSuits, g.seenRanks cards (a p) = g.seenRanks cards' (at' p)) (c : Nat) :
    c ∈ cards.map (g.mapSuit m) ↔ c ∈ cards'.map (g.mapSuit m') := by
  have hp := suit_lt (g := g) c
  have hcode : g.seenRanks (cards.map (g.mapSuit m)) (g.suit c) = g.seenRanks cards (a (g.suit c)) := by
    rw [← hm.seenRanks_map (ha _ hp).1, (ha _ hp).2]
  have hcode' : g.seenRanks (cards'.map (g.mapSuit m')) (g.suit c) = g.seenRanks cards' (at' (g.suit c)) := by
    rw [← hm'.seenRanks_map (ha' _ hp).1, (ha' _ hp).2]
  rw [mem_iff_testBit g, mem_iff_testBit g (cards'.map (g.mapSuit m')), hcode, hcode', hcodes _ hp]

/-- Deals that are the same up to suits have the same codes at every place. -/
theorem lanes_of_same (hg : g.Playable) (hfour : g.numSuits = 4) (h : g.RawCards st board (some hole))
    (h' : g.RawCards st board' (some hole')) (hst : st ≤ g.maxStreet)
    (hsame : g.SameUpToSuits st board hole board' hole') (hp : p < 4) :
    g.seenRanks hole (g.suitAt board (some hole) st p) = g.seenRanks hole' (g.suitAt board' (some hole') st p) ∧
      g.lanes board (g.suitAt board (some hole) st p) st = g.lanes board' (g.suitAt board' (some hole') st p) st := by
  obtain ⟨m, hm, hhole, hstreets⟩ := hsame
  have hcarry : ∀ cards cards' : List Nat, (∀ c, c ∈ cards' ↔ c ∈ cards.map (g.mapSuit m)) → ∀ s < 4,
      g.seenRanks cards' (m s) = g.seenRanks cards s := by
    intro cards cards' hmem s hs
    rw [← hm.seenRanks_map (show s < g.numSuits by omega)]
    apply seenRanks_congr
    intro r
    simp only [hmem]
  have hlanes : ∀ s < 4, ∀ t ≤ st, g.lanes board' (m s) t = g.lanes board s t := by
    intro s hs t ht
    induction t with
    | zero => rfl
    | succ t ih => rw [lanes, lanes, ih (by omega), hcarry _ _ (hstreets t (by omega)) s hs]
  have hlane : ∀ s, g.holeLane (some hole) s = g.seenRanks hole s := by
    intro s
    rw [holeLane, List.take_of_length_le (h.hole hole rfl).1.le]
  have hlane' : ∀ s, g.holeLane (some hole') s = g.seenRanks hole' s := by
    intro s
    rw [holeLane, List.take_of_length_le (h'.hole hole' rfl).1.le]
  have hcode : ∀ s < 4, g.encodeRanksOfRawSuit (m s) board' (some hole') st =
      g.encodeRanksOfRawSuit s board (some hole) st := by
    intro s hs
    rw [encodeRanksOfRawSuit_eq hg h hst, encodeRanksOfRawSuit_eq hg h' hst, hlanes s hs st (le_refl st), hlane, hlane',
      hcarry _ _ hhole s hs]
  have hperm : ((List.range 4).map fun s => g.encodeRanksOfRawSuit s board (some hole) st).Perm
      ((List.range 4).map fun s => g.encodeRanksOfRawSuit s board' (some hole') st) := by
    have hrange := hm.range_perm
    rw [hfour] at hrange
    have hmap := hrange.map fun s => g.encodeRanksOfRawSuit s board' (some hole') st
    rw [List.map_map] at hmap
    refine List.Perm.trans (List.Perm.of_eq ?_) hmap
    apply List.map_congr_left
    intro s hs
    exact (hcode s (List.mem_range.mp hs)).symm
  have hkey : g.encodeRanksOfRawSuit (g.suitAt board (some hole) st p) board (some hole) st =
      g.encodeRanksOfRawSuit (g.suitAt board' (some hole') st p) board' (some hole') st := key_placed hperm hp
  rw [encodeRanksOfRawSuit_eq hg h hst, encodeRanksOfRawSuit_eq hg h' hst] at hkey
  have hdigits := Nat.ofDigits_inj_of_len_eq (by norm_num) (by simp [lanes_length]) ?_ ?_ hkey
  · rw [List.cons.injEq, hlane, hlane'] at hdigits
    exact hdigits
  · intro d hd
    rcases List.mem_cons.mp hd with rfl | hd
    · exact holeLane_lt hg h
    · exact lanes_lt hg h hst d hd
  · intro d hd
    rcases List.mem_cons.mp hd with rfl | hd
    · exact holeLane_lt hg h'
    · exact lanes_lt hg h' hst d hd

theorem suitAt_places (hg : g.Playable) {rawHole : Option (List Nat)} (h : g.RawCards st board rawHole)
    (hst : st ≤ g.maxStreet) :
    ∀ p < g.numSuits, g.suitAt board rawHole st p < g.numSuits ∧
      g.suitMapping board rawHole st (g.suitAt board rawHole st p) = p := by
  have hsuits := hg.suits
  intro p hp
  exact ⟨suitAt_lt hg h hst hp, suitMapping_suitAt (by omega)⟩

/-- Deals that are the same up to suits are canonicalized to the same cards. -/
theorem canonicalizeCards_of_same (hg : g.Playable) (hfour : g.numSuits = 4) (h : g.RawCards st board (some hole))
    (h' : g.RawCards st board' (some hole')) (hst : st ≤ g.maxStreet) (hnodup : hole.Nodup) (hnodup' : hole'.Nodup)
    (hsame : g.SameUpToSuits st board hole board' hole') :
    g.canonicalizeCards board (some hole) st = g.canonicalizeCards board' (some hole') st := by
  have hm := suitMapping_perm hg h hst
  have hm' := suitMapping_perm hg h' hst
  have hplaces := suitAt_places hg h hst
  have hplaces' := suitAt_places hg h' hst
  have hcodes := fun p (hp : p < g.numSuits) => lanes_of_same hg hfour h h' hst hsame (p := p) (by omega)
  obtain ⟨hholeLength, -⟩ := h.hole hole rfl
  obtain ⟨hholeLength', -⟩ := h'.hole hole' rfl
  have hholeCards := hg.holeCards
  have hhole : sortCards (hole.map (g.mapSuit (g.suitMapping board (some hole) st))) =
      sortCards (hole'.map (g.mapSuit (g.suitMapping board' (some hole') st))) := by
    apply sortCards_congr (by rw [List.length_map]; omega) (hm.nodup_map hnodup) (hm'.nodup_map hnodup')
    exact mem_mapped_congr hm hm' hplaces hplaces' fun p hp => (hcodes p hp).1
  have hstreets : ∀ t ≤ st, g.canonStreets (g.suitMapping board (some hole) st) board t =
      g.canonStreets (g.suitMapping board' (some hole') st) board' t := by
    intro t ht
    induction t with
    | zero => rfl
    | succ t ih =>
      have hraw := h.mono ht
      have hraw' := h'.mono ht
      have hcards : sortCards ((g.cardsOn board (t + 1)).map (g.mapSuit (g.suitMapping board (some hole) st))) =
          sortCards ((g.cardsOn board' (t + 1)).map (g.mapSuit (g.suitMapping board' (some hole') st))) := by
        have hdistinct := hraw.nodup
        have hdistinct' := hraw'.nodup
        rw [take_numBoardCards_succ (by omega), List.nodup_append] at hdistinct hdistinct'
        apply sortCards_congr _ (hm.nodup_map hdistinct.2.1) (hm'.nodup_map hdistinct'.2.1)
        · refine mem_mapped_congr hm hm' hplaces hplaces' ?_
          intro p hp
          have hlane := lanes_getElem g board (g.suitAt board (some hole) st p) (show t < st by omega)
          rw [(hcodes p hp).2, lanes_getElem g board' _ (by omega)] at hlane
          exact (Option.some.inj hlane).symm
        · rw [List.length_map, cardsOn_length hraw (by omega)]
          exact hg.street (by omega)
      rw [canonStreets, canonStreets, ih (by omega), hcards]
  unfold canonicalizeCards
  dsimp only
  rw [List.take_of_length_le hholeLength.le, List.take_of_length_le hholeLength'.le, hstreets st (le_refl st), hhole]

/-- Deals that are canonicalized to the same cards are the same up to suits. -/
theorem same_of_canonicalizeCards (hg : g.Playable) (h : g.RawCards st board (some hole))
    (h' : g.RawCards st board' (some hole')) (hst : st ≤ g.maxStreet) {canonHole : Option (List Nat)}
    (hcanon : g.canonicalizeCards board (some hole) st = some (canon, canonHole))
    (hcanon' : g.canonicalizeCards board' (some hole') st = some (canon, canonHole)) :
    g.SameUpToSuits st board hole board' hole' := by
  have hsuits := hg.suits
  have hm := suitMapping_perm hg h hst
  have hm' := suitMapping_perm hg h' hst
  have hplaces' := suitAt_places hg h' hst
  obtain ⟨hstreets, sorted, hsorted, rfl⟩ := (canonicalizeCards_some (h.hole hole rfl).1).mp hcanon
  obtain ⟨hstreets', sorted', hsorted', heq⟩ := (canonicalizeCards_some (h'.hole hole' rfl).1).mp hcanon'
  rw [Option.some.injEq] at heq
  rw [← heq] at hsorted'
  have hback : g.SuitPerm (g.suitAt board' (some hole') st) := by
    refine ⟨fun p hp => (hplaces' p hp).1, ?_⟩
    intro p hp q hq hpq
    rw [← (hplaces' p hp).2, hpq, (hplaces' q hq).2]
  have hcarry : ∀ cards cards' : List Nat,
      (∀ c, c ∈ cards'.map (g.mapSuit (g.suitMapping board' (some hole') st)) ↔
        c ∈ cards.map (g.mapSuit (g.suitMapping board (some hole) st))) →
      ∀ c, c ∈ cards' ↔ c ∈ cards.map
        (g.mapSuit fun s => g.suitAt board' (some hole') st (g.suitMapping board (some hole) st s)) := by
    intro cards cards' hmem c
    rw [← hm'.mem_map cards', hmem, List.mem_map, List.mem_map]
    have hround : ∀ d, g.mapSuit (g.suitMapping board (some hole) st) d = g.mapSuit (g.suitMapping board' (some hole') st) c ↔
        g.mapSuit (fun s => g.suitAt board' (some hole') st (g.suitMapping board (some hole) st s)) d = c := by
      intro d
      have hthere : g.mapSuit (g.suitMapping board' (some hole') st)
          (g.mapSuit (fun s => g.suitAt board' (some hole') st (g.suitMapping board (some hole) st s)) d) =
            g.mapSuit (g.suitMapping board (some hole) st) d := by
        rw [(hm.comp hback).mapSuit_mapSuit, mapSuit, mapSuit, (hplaces' _ (hm.lt _ (suit_lt d))).2]
      rw [← hthere]
      exact ⟨hm'.mapSuit_inj, fun heq => by rw [heq]⟩
    simp only [hround]
  refine ⟨_, hm.comp hback, ?_, ?_⟩
  · apply hcarry
    intro c
    rw [← (sortCards_perm hsorted').mem_iff, (sortCards_perm hsorted).mem_iff]
  · intro t ht
    apply hcarry
    intro c
    have hcards := (canonStreets_cardsOn h hst hstreets).2 t ht
    have hcards' := (canonStreets_cardsOn h' hst hstreets').2 t ht
    rw [← (sortCards_perm hcards').mem_iff, (sortCards_perm hcards).mem_iff]

end

end SGame

end MasterAI
