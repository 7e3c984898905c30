import MasterAI.ActionTreeVisits

namespace MasterAI

open ActionTree

namespace BettingDag

variable {numPlayers maxStreet : Nat} {α : Type*} [DecidableEq α] {T : BettingDag numPlayers maxStreet α}
  {place : α → Nat} {nodes : List ActionTree.Node} {a b t : α} {s : ReadState} {terminals : List (Option Nat)}
  {counts : List Int} {tree : ActionTree} {file : List UInt8} {memory : Nat → UInt8}

/-- What `FillTerminalArray` does on a node. -/
def fillStep (numTerminals : Int) (k : Nat) (n : ActionTree.Node) (terminals : List (Option Nat)) :
    Option (List (Option Nat)) :=
  if n.terminal then
    if n.terminalID ≥ numTerminals ∨ n.terminalID < 0 then none
    else some (terminals.set n.terminalID.toNat (some k))
  else some terminals

theorem fillTerminals_visits (nodes : List ActionTree.Node) (numTerminals : Int) :
    Visits nodes (fillStep numTerminals) (fillTerminals nodes numTerminals) := by
  intro depth k n terminals hn
  rw [fillTerminals, hn, Option.bind_some, fillStep]
  by_cases hterminal : n.terminal
  · simp only [hterminal, if_true, Option.bind_fun_some]
  · simp only [hterminal, Bool.false_eq_true, if_false, Option.bind_some]

/-- What `CountNumNonterminals2` does on a node. -/
def countStep (maxStreet : Nat) (n : ActionTree.Node) (counts : List Int) : Option (List Int) :=
  if n.terminal then some counts
  else
    (counts[n.playerActing * (maxStreet + 1) + n.street]?).map fun count =>
      if n.nonterminalID ≥ count then
        counts.set (n.playerActing * (maxStreet + 1) + n.street) (wrapInt32 (n.nonterminalID + 1))
      else counts

theorem countNonterminals_visits (nodes : List ActionTree.Node) (maxStreet : Nat) :
    Visits nodes (fun _ => countStep maxStreet) (countNonterminals nodes maxStreet) := by
  intro depth k n counts hn
  rw [countNonterminals, hn, Option.bind_some]
  dsimp only
  unfold countStep
  by_cases hterminal : n.terminal
  · simp only [hterminal, if_true, Option.bind_some]
  · simp only [hterminal, Bool.false_eq_true, if_false, Option.bind_map]
    rfl

theorem FitsSigned.wrapId (hfits : T.FitsSigned) (a : α) : wrapInt32 (T.header a).id = (T.header a).id := by
  refine wrapInt32_eq ?_
  unfold FitsInt32 int32Max
  by_cases ha : T.succs a = []
  · have hid : (T.header a).id < T.numTerminals := T.numbered.mapsTo ha
    have := hfits.terminals
    omega
  · have := hfits.nonterminals a ha
    omega

theorem placed_id (hfits : T.FitsSigned) (place : α → Nat) (a : α) : (T.placed place a).id = (T.header a).id := by
  simp only [placed, newNode, Node.new]
  exact hfits.wrapId a

theorem placed_copies (hfits : T.FitsSigned) (place : α → Nat) (a : α) : T.Copies place a (T.placed place a) where
  id := placed_id hfits place a
  lastBetTo := by
    simp only [placed, newNode, Node.new]
    exact wrapInt16_eq (hfits.lastBetTo a)
  numSuccs := placed_numSuccs place (hfits.numSuccs a)
  flags := rfl
  playerActing := rfl
  numRemaining := rfl
  succs i b hb := by rw [placed_ithSucc, List.getElem?_map, hb, Option.map_some]

/-- A terminal is in the place of its id. -/
def Filled (T : BettingDag numPlayers maxStreet α) (place : α → Nat) (t : α) (terminals : List (Option Nat)) : Prop :=
  T.succs t = [] → terminals[(T.header t).id]? = some (some (place t))

theorem fillStep_placed (hfits : T.FitsSigned) (place : α → Nat) (a : α) (hlength : terminals.length = T.numTerminals) :
    ∃ terminals', fillStep T.numTerminals (place a) (T.placed place a) terminals = some terminals' ∧
      terminals'.length = T.numTerminals ∧ T.Filled place a terminals' ∧
      ∀ b, T.Filled place b terminals → T.Filled place b terminals' := by
  have hid := placed_id hfits place a
  unfold fillStep Node.terminalID
  by_cases ha : T.succs a = []
  · rw [(placed_terminal place (hfits.numSuccs a)).mpr ha, if_pos rfl, if_pos rfl, hid]
    have hlt : (T.header a).id < T.numTerminals := T.numbered.mapsTo ha
    rw [if_neg (by omega), Int.toNat_natCast]
    refine ⟨_, rfl, by rw [List.length_set, hlength], fun _ => ?_, fun b hb hleaf => ?_⟩
    · rw [List.getElem?_set_self (by omega)]
    · by_cases heq : (T.header b).id = (T.header a).id
      · obtain rfl := T.numbered.injOn hleaf ha heq
        rw [List.getElem?_set_self (by omega)]
      · rw [List.getElem?_set_ne (Ne.symm heq)]
        exact hb hleaf
  · rw [if_neg fun hterminal => ha ((placed_terminal place (hfits.numSuccs a)).mp hterminal)]
    exact ⟨terminals, rfl, hlength, fun hleaf => absurd hleaf ha, fun _ hb => hb⟩

/-- The count of a nonterminal's street and player is above its id. -/
def Bounded (T : BettingDag numPlayers maxStreet α) (a : α) (counts : List Int) : Prop :=
  T.succs a ≠ [] → ∃ bound, counts[(T.header a).playerActing * (maxStreet + 1) + (T.header a).street]? = some bound ∧
    (T.header a).id < bound

theorem countIndex_lt (ha : T.succs a ≠ []) :
    (T.header a).playerActing * (maxStreet + 1) + (T.header a).street < numPlayers * (maxStreet + 1) := by
  have hplayer := Nat.mul_le_mul_right (maxStreet + 1) (Nat.succ_le_of_lt (T.player_lt a ha))
  have hstreet := T.street_le a ha
  rw [Nat.succ_mul] at hplayer
  omega

theorem countStep_placed (hfits : T.FitsSigned) (place : α → Nat) (a : α)
    (hlength : counts.length = numPlayers * (maxStreet + 1)) :
    ∃ counts', countStep maxStreet (T.placed place a) counts = some counts' ∧
      counts'.length = numPlayers * (maxStreet + 1) ∧ T.Bounded a counts' ∧
      ∀ b, T.Bounded b counts → T.Bounded b counts' := by
  have hid := placed_id hfits place a
  unfold countStep Node.nonterminalID
  by_cases ha : T.succs a = []
  · rw [(placed_terminal place (hfits.numSuccs a)).mpr ha, if_pos rfl]
    exact ⟨counts, rfl, hlength, fun hinner => absurd ha hinner, fun _ hb => hb⟩
  · have hterminal : ¬(T.placed place a).terminal = true := fun hterminal =>
      ha ((placed_terminal place (hfits.numSuccs a)).mp hterminal)
    have hplayer : (T.placed place a).playerActing = (T.header a).playerActing := rfl
    have hstreet : (T.placed place a).street = (T.header a).street := rfl
    have hindex := countIndex_lt ha
    have hlt := hfits.nonterminals a ha
    have hnext : wrapInt32 ((T.header a).id + 1) = (T.header a).id + 1 := by
      refine wrapInt32_eq ?_
      unfold FitsInt32 int32Max
      omega
    have hcount := List.getElem?_eq_getElem (hlength ▸ hindex)
    rw [if_neg hterminal, if_neg hterminal, hid, hplayer, hstreet, hcount, Option.map_some, hnext]
    generalize counts[(T.header a).playerActing * (maxStreet + 1) + (T.header a).street] = count at hcount
    by_cases hge : ((T.header a).id : Int) ≥ count
    · rw [if_pos hge]
      have hset := @List.getElem?_set_self _ counts _ (((T.header a).id : Int) + 1) (hlength ▸ hindex)
      refine ⟨_, rfl, by rw [List.length_set, hlength], fun _ => ⟨_, hset, by omega⟩, fun b hb hinner => ?_⟩
      obtain ⟨bound, hbound, hltb⟩ := hb hinner
      by_cases heq : (T.header b).playerActing * (maxStreet + 1) + (T.header b).street =
          (T.header a).playerActing * (maxStreet + 1) + (T.header a).street
      · rw [heq, hcount] at hbound
        obtain rfl := Option.some.inj hbound
        refine ⟨(T.header a).id + 1, ?_, by omega⟩
        rw [heq]
        exact hset
      · exact ⟨bound, by rw [List.getElem?_set_ne (Ne.symm heq), hbound], hltb⟩
    · rw [if_neg hge]
      exact ⟨counts, rfl, hlength, fun _ => ⟨count, hcount, by omega⟩, fun _ hb => hb⟩

theorem FitsSigned.numTerminals_eq (hfits : T.FitsSigned) (hl : T.Loaded place s) : s.numTerminals = T.numTerminals := by
  have hlt := hfits.terminals
  rw [hl.numTerminals]
  refine wrapInt32_eq ?_
  unfold FitsInt32 int32Max
  omega

theorem Loaded.fill (hl : T.Loaded place s) (hfits : T.FitsSigned) :
    ∃ terminals depth₀, (∀ depth ≥ depth₀, fillTerminalArray s.nodes s.numTerminals depth (place T.root) = some terminals) ∧
      terminals.length = T.numTerminals ∧ ∀ t, T.Filled place t terminals := by
  obtain ⟨depth₀, hall⟩ := (fillTerminals_visits s.nodes T.numTerminals).all hfits.numSuccs hl.nodes
    (fun a terminals hlength => fillStep_placed hfits place a hlength) T.root
  obtain ⟨terminals, hfill, hlength, hdone, -⟩ := hall (List.replicate T.numTerminals none) (List.length_replicate)
  refine ⟨terminals, depth₀, fun depth hdepth => ?_, hlength, fun t => hdone t (T.connected t)⟩
  rw [fillTerminalArray, hfits.numTerminals_eq hl, if_neg (by omega), Int.toNat_natCast]
  exact hfill depth hdepth

theorem Loaded.count (hl : T.Loaded place s) (hfits : T.FitsSigned) :
    ∃ counts depth₀, (∀ depth ≥ depth₀,
        countNumNonterminals s.nodes numPlayers maxStreet depth (place T.root) = some counts) ∧
      ∀ a, T.Bounded a counts := by
  obtain ⟨depth₀, hall⟩ := (countNonterminals_visits s.nodes maxStreet).all hfits.numSuccs hl.nodes
    (fun a counts hlength => countStep_placed hfits place a hlength) T.root
  obtain ⟨counts, hcount, -, hdone, -⟩ :=
    hall (List.replicate (numPlayers * (maxStreet + 1)) 0) (List.length_replicate)
  exact ⟨counts, depth₀, hcount, fun a => hdone a (T.connected a)⟩

theorem Loaded.isomorphic (hl : T.Loaded place s) (hfits : T.FitsSigned) (hlength : terminals.length = T.numTerminals)
    (hfilled : ∀ t, T.Filled place t terminals) (hbounded : ∀ a, T.Bounded a counts) :
    T.Isomorphic place ⟨s.nodes, place T.root, s.numTerminals, terminals, counts⟩ where
  bijective := hl.bijective
  root := rfl
  nodes a := ⟨_, hl.nodes a, placed_copies hfits place a⟩
  numTerminals := hfits.numTerminals_eq hl
  terminals := hlength
  placedOnce t ht k := by
    constructor
    · intro hk
      obtain ⟨hlt, -⟩ := List.getElem?_eq_some_iff.mp hk
      obtain ⟨u, hu, rfl⟩ := T.numbered.surjOn (show k ∈ Set.Iio T.numTerminals from hlength ▸ hlt)
      have hplace := (hfilled u hu).symm.trans hk
      simp only [Option.some.injEq] at hplace
      rw [hl.bijective.injOn trivial trivial hplace]
    · rintro rfl
      exact hfilled t ht
  ids a ha := hbounded a ha

/-- The counts are numbers of 32 bits, whatever the nodes are. -/
theorem countNonterminals_le {depth node : Nat} {counts' : List Int} (hle : ∀ c ∈ counts, c ≤ int32Max)
    (h : countNonterminals nodes maxStreet depth node counts = some counts') : ∀ c ∈ counts', c ≤ int32Max := by
  induction depth generalizing node counts counts' with
  | zero => cases h
  | succ depth ih =>
    obtain ⟨n, -, h⟩ := Option.bind_eq_some_iff.mp h
    split_ifs at h
    · obtain rfl := Option.some.inj h
      exact hle
    · obtain ⟨count, -, h⟩ := Option.bind_eq_some_iff.mp h
      refine foldlM_invariant (P := fun counts => ∀ c ∈ counts, c ≤ int32Max) ?_ ?_ h
      · intro counts i counts' hle hstep
        obtain ⟨succ, -, hstep⟩ := Option.bind_eq_some_iff.mp hstep
        exact ih hle hstep
      · intro c hc
        split_ifs at hc
        · rcases List.mem_or_eq_of_mem_set hc with hc | rfl
          · exact hle c hc
          · exact (wrapInt32_fits _).2
        · exact hle c hc

/-- What `Initialize` has done when it succeeds. -/
theorem initializeTree_cases {depth : Nat} (h : initializeTree numPlayers maxStreet depth file memory = some tree) :
    ∃ reader s, Reader.opened file memory = some reader ∧
      read numPlayers maxStreet depth ⟨reader, fun _ _ => none, [], 0⟩ = some (tree.root, s) ∧ tree.nodes = s.nodes ∧
      tree.numTerminals = s.numTerminals ∧
      fillTerminalArray s.nodes s.numTerminals depth tree.root = some tree.terminals ∧
      countNumNonterminals s.nodes numPlayers maxStreet depth tree.root = some tree.nonterminalCounts := by
  obtain ⟨reader, hreader, h⟩ := Option.bind_eq_some_iff.mp h
  obtain ⟨⟨root, s⟩, hread, h⟩ := Option.bind_eq_some_iff.mp h
  obtain ⟨terminals, hfill, h⟩ := Option.bind_eq_some_iff.mp h
  obtain ⟨counts, hcount, rfl⟩ := Option.map_eq_some_iff.mp h
  exact ⟨reader, s, hreader, hread, rfl, rfl, hfill, hcount⟩

theorem rebuilt_of_fits (hfile : T.IsFile file) (memory : Nat → UInt8) (hfits : T.FitsSigned) : T.Rebuilt file memory := by
  obtain ⟨reader, place, s, depth₁, hreader, hl, hread⟩ := exists_loaded hfile memory
  obtain ⟨terminals, depth₂, hfill, hlength, hfilled⟩ := hl.fill hfits
  obtain ⟨counts, depth₃, hcount, hbounded⟩ := hl.count hfits
  refine ⟨_, place, depth₁ + depth₂ + depth₃, fun depth hdepth => ?_, hl.isomorphic hfits hlength hfilled hbounded⟩
  rw [initializeTree, hreader, Option.bind_some, hread depth (by omega), Option.bind_some]
  dsimp only
  rw [hfill depth (by omega), Option.bind_some, hcount depth (by omega), Option.map_some]

theorem fits_of_rebuilt (hfile : T.IsFile file) (memory : Nat → UInt8) (h : T.Rebuilt file memory) : T.FitsSigned := by
  obtain ⟨reader, place, s, depth₁, hreader, hl, hread⟩ := exists_loaded hfile memory
  obtain ⟨tree, place', depth₂, hinit, hiso⟩ := h
  obtain ⟨reader', s', hreader', hread', hnodes, hnum, -, hcount⟩ :=
    initializeTree_cases (hinit (depth₁ + depth₂) (by omega))
  obtain rfl := Option.some.inj (hreader.symm.trans hreader')
  obtain ⟨-, rfl⟩ := Prod.mk.inj (Option.some.inj ((hread _ (by omega)).symm.trans hread'))
  have hnode : ∀ a, ∃ b, T.Copies place' a (T.placed place b) := by
    intro a
    obtain ⟨node, hnode, hcopies⟩ := hiso.nodes a
    rw [hnodes] at hnode
    obtain ⟨hlt, -⟩ := List.getElem?_eq_some_iff.mp hnode
    obtain ⟨b, -, hb⟩ := hl.bijective.surjOn hlt
    have hplaced := hl.nodes b
    rw [hb, hnode] at hplaced
    exact ⟨b, Option.some.inj hplaced ▸ hcopies⟩
  constructor
  · intro a
    obtain ⟨b, hb⟩ := hnode a
    have hlt := wrapInt16_lt (T.header b).lastBetTo
    have heq := hb.lastBetTo
    simp only [placed, newNode, Node.new] at heq
    omega
  · intro a
    obtain ⟨b, hb⟩ := hnode a
    have hlt := wrapInt16_lt (T.succs b).length
    have heq := hb.numSuccs
    simp only [placed, newNode, Node.new] at heq
    omega
  · intro a ha
    obtain ⟨bound, hbound, hlt⟩ := hiso.ids a ha
    have hle := countNonterminals_le (by simp [int32Max]) hcount bound (List.mem_of_getElem? hbound)
    unfold int32Max at hle
    omega
  · have hfits := (wrapInt32_fits T.numTerminals).2
    have heq := hiso.numTerminals
    rw [hnum, hl.numTerminals] at heq
    unfold int32Max at hfits
    omega

/-- `Initialize` rebuilds a tree from its file exactly where its numbers fit the signed fields. -/
theorem rebuilt_iff_fits (T : BettingDag numPlayers maxStreet α) {file : List UInt8} (hfile : T.IsFile file)
    (memory : Nat → UInt8) : T.Rebuilt file memory ↔ T.FitsSigned :=
  ⟨fits_of_rebuilt hfile memory, rebuilt_of_fits hfile memory⟩

def sharedHeader : Fin 5 → NodeHeader
  | 0 => ⟨0, 2, 3, 0, 2, by decide, by decide, by decide, by decide, by decide⟩
  | 1 => ⟨0, 4, 3, 1, 2, by decide, by decide, by decide, by decide, by decide⟩
  | 2 => ⟨0, 4, 9, 0, 2, by decide, by decide, by decide, by decide, by decide⟩
  | 3 => ⟨1, 4, 0, 255, 1, by decide, by decide, by decide, by decide, by decide⟩
  | 4 => ⟨0, 4, 8, 255, 2, by decide, by decide, by decide, by decide, by decide⟩

def sharedSuccs : Fin 5 → List (Fin 5)
  | 0 => [1, 2]
  | 1 => [2, 3]
  | 2 => [4]
  | 3 => []
  | 4 => []

/-- A tree with a nonterminal below the root and below another nonterminal. -/
def sharedDag : BettingDag 2 3 (Fin 5) where
  header := sharedHeader
  succs := sharedSuccs
  root := 0
  numTerminals := 2
  connected a := by
    have hfirst : Relation.ReflTransGen (fun a b => b ∈ sharedSuccs a) 0 1 := .single (by decide)
    have hshared : Relation.ReflTransGen (fun a b => b ∈ sharedSuccs a) 0 2 := .single (by decide)
    match a with
    | 0 => exact .refl
    | 1 => exact hfirst
    | 2 => exact hshared
    | 3 => exact hfirst.tail (by decide)
    | 4 => exact hshared.tail (by decide)
  acyclic := by
    have hrising : ∀ a b : Fin 5, b ∈ sharedSuccs a → 5 - b.val < 5 - a.val := by decide
    exact Subrelation.wf (fun hb => hrising _ _ hb) (measure fun a : Fin 5 => 5 - a.val).wf
  succs_lt := by decide
  player_lt := by decide
  street_le := by decide
  identified := by decide
  oneEdge := by decide
  numbered := by
    refine ⟨?_, ?_, ?_⟩
    · have hlt : ∀ t, sharedSuccs t = [] → (sharedHeader t).id < 2 := by decide
      exact fun t ht => hlt t ht
    · have hinj : ∀ t, sharedSuccs t = [] → ∀ u, sharedSuccs u = [] → (sharedHeader t).id = (sharedHeader u).id →
          t = u := by decide
      exact fun t ht u hu => hinj t ht u hu
    · have hsurj : ∀ k < 2, ∃ t, sharedSuccs t = [] ∧ (sharedHeader t).id = k := by decide
      exact fun k hk => hsurj k hk

/-- The file names the shared nonterminal twice and its successor once. -/
def sharedFile : List UInt8 := [0, 1, 2, 4, 3, 2].flatMap sharedDag.record

theorem sharedFile_isFile : sharedDag.IsFile sharedFile := by
  have hnew₀ : (0 : Fin 5) ∉ [] := by decide
  have hnew₁ : (1 : Fin 5) ∉ [0] := by decide
  have hnew₂ : (2 : Fin 5) ∉ [0, 1] := by decide
  have hseen₂ : (2 : Fin 5) ∈ [0, 1, 2, 4, 3] := by decide
  have hinner : ∀ a : Fin 5, a = 0 ∨ a = 1 ∨ a = 2 → sharedSuccs a ≠ [] := by decide
  have hshared : PreorderWalk sharedSuccs [0, 1] [2, 3] [2, 4, 3] [2, 4, 3] :=
    .first (hinner 2 (by decide)) hnew₂ (.leaf rfl .done) (.leaf rfl .done)
  have hfirst : PreorderWalk sharedSuccs [0] [1, 2] [1, 2, 4, 3] [1, 2, 4, 3, 2] :=
    .first (hinner 1 (by decide)) hnew₁ hshared (.again (hinner 2 (by decide)) hseen₂ .done)
  have hroot : PreorderWalk sharedSuccs [] [0] [0, 1, 2, 4, 3] [0, 1, 2, 4, 3, 2] :=
    .first (hinner 0 (by decide)) hnew₀ hfirst .done
  exact ⟨_, _, hroot, rfl⟩

theorem sharedDag_rebuilt : sharedDag.IsFile sharedFile ∧ sharedDag.Rebuilt sharedFile fun _ => 0 := by
  have hfits : sharedDag.FitsSigned := ⟨by decide, by decide, by decide, by decide⟩
  exact ⟨sharedFile_isFile, (rebuilt_iff_fits sharedDag sharedFile_isFile _).mpr hfits⟩

def fanHeader (n bet : Nat) (hn : n < 65535) (hbet : bet < 65536) : Option (Fin (n + 1)) → NodeHeader
  | none => ⟨0, bet, 0, 0, 2, by decide, hbet, by decide, by decide, by decide⟩
  | some t => ⟨t, 0, 0, 255, 2, by omega, by decide, by decide, by decide, by decide⟩

def fanSuccs (n : Nat) : Option (Fin (n + 1)) → List (Option (Fin (n + 1)))
  | none => (List.finRange (n + 1)).map some
  | some _ => []

theorem fanSuccs_eq_nil {n : Nat} {t : Option (Fin (n + 1))} (h : fanSuccs n t = []) : ∃ k, t = some k := by
  cases t with
  | none => simp [fanSuccs] at h
  | some k => exact ⟨k, rfl⟩

theorem eq_none_of_mem_fanSuccs {n : Nat} {a b : Option (Fin (n + 1))} (h : b ∈ fanSuccs n a) : a = none := by
  cases a with
  | none => rfl
  | some k => simp [fanSuccs] at h

theorem eq_none_of_fanSuccs {n : Nat} {a : Option (Fin (n + 1))} (h : fanSuccs n a ≠ []) : a = none := by
  obtain ⟨b, hb⟩ := List.exists_mem_of_ne_nil _ h
  exact eq_none_of_mem_fanSuccs hb

/-- A nonterminal with terminals alone below it. -/
def fan (n bet : Nat) (hn : n < 65535) (hbet : bet < 65536) : BettingDag 2 3 (Option (Fin (n + 1))) where
  header := fanHeader n bet hn hbet
  succs := fanSuccs n
  root := none
  numTerminals := n + 1
  connected a := by
    cases a with
    | none => exact .refl
    | some t => exact .single (by simp [fanSuccs])
  acyclic := by
    refine Subrelation.wf (fun {b a} hb => ?_) (measure fun a : Option (Fin (n + 1)) => if a = none then 1 else 0).wf
    obtain rfl := eq_none_of_mem_fanSuccs hb
    obtain ⟨t, -, rfl⟩ := List.mem_map.mp hb
    simp [InvImage, WellFoundedRelation.rel]
  succs_lt a := by
    cases a with
    | none =>
      rw [fanSuccs, List.length_map, List.length_finRange]
      omega
    | some k => simp [fanSuccs]
  player_lt a ha := by
    obtain rfl := eq_none_of_fanSuccs ha
    exact Nat.zero_lt_two
  street_le a ha := by
    obtain rfl := eq_none_of_fanSuccs ha
    simp [NodeHeader.street, fanHeader, streetOf]
  identified a b ha hb _ _ _ := by rw [eq_none_of_fanSuccs ha, eq_none_of_fanSuccs hb]
  oneEdge t ht := by
    refine ⟨fun a => ?_, fun a b ha hb => by rw [eq_none_of_mem_fanSuccs ha, eq_none_of_mem_fanSuccs hb]⟩
    have hnodup : (fanSuccs n a).Nodup := by
      cases a with
      | none => exact (List.nodup_finRange _).map (Option.some_injective _)
      | some k => exact List.nodup_nil
    exact (@List.nodup_iff_count _ instBEqOfDecidableEq _ _).mp hnodup t
  numbered := by
    refine ⟨fun t ht => ?_, fun t ht u hu h => ?_, fun k hk => ⟨some ⟨k, hk⟩, rfl, rfl⟩⟩
    · obtain ⟨k, rfl⟩ := fanSuccs_eq_nil ht
      exact k.isLt
    · obtain ⟨k, rfl⟩ := fanSuccs_eq_nil ht
      obtain ⟨l, rfl⟩ := fanSuccs_eq_nil hu
      rw [Fin.ext h]

/-- A nonterminal with 32768 successors loses them, and a bet of 40000 comes back as another one. -/
theorem fan_not_rebuilt :
    (∃ file, (fan 32767 2 (by decide) (by decide)).IsFile file ∧
      ∀ memory, ¬(fan 32767 2 (by decide) (by decide)).Rebuilt file memory) ∧
    ∃ file, (fan 0 40000 (by decide) (by decide)).IsFile file ∧
      ∀ memory, ¬(fan 0 40000 (by decide) (by decide)).Rebuilt file memory := by
  constructor
  · obtain ⟨file, hfile⟩ := (fan 32767 2 (by decide) (by decide)).exists_file
    refine ⟨file, hfile, fun memory h => ?_⟩
    have hlt := (fits_of_rebuilt hfile memory h).numSuccs none
    simp [fan, fanSuccs] at hlt
  · obtain ⟨file, hfile⟩ := (fan 0 40000 (by decide) (by decide)).exists_file
    refine ⟨file, hfile, fun memory h => ?_⟩
    have hlt := (fits_of_rebuilt hfile memory h).lastBetTo none
    simp [fan, fanHeader] at hlt

end BettingDag

end MasterAI
