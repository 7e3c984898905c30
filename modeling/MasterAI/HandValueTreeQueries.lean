import MasterAI.HandValueTreeDisk
import MasterAI.StepRuns
import Mathlib.Tactic.IntervalCases

namespace MasterAI

namespace HandValueTree

/-- The public functions that look hand values up. -/
inductive Query
  | valByCount (cards : List Nat) (count : Int)
  | valOfCards (cards : List Nat)
  | val (board holeCards : List Nat)
  | getRiverVal (board holeCards : List Nat)
  deriving DecidableEq, Repr

/-- The number of cards that is set after a query. -/
def Query.countAfter (count : Int) : Query → Int
  | .valByCount _ asked => asked
  | _ => count

/-- The answer of a query and the state after it; nothing where the program exits or leaves an array. -/
def perform (g : SGame) (s : HandValueTree) : Query → Option (Int × HandValueTree)
  | .valByCount cards count => (s.valByCount cards count).1.map fun x => (x, (s.valByCount cards count).2)
  | .valOfCards cards => (s.val cards).map fun x => (x, s)
  | .val board holeCards => (s.valOfBoard board holeCards).map fun x => (x, s)
  | .getRiverVal board holeCards => (s.getRiverVal g board holeCards).map fun x => (x, s)

def QueryStep (g : SGame) (s : HandValueTree) (e : Query × Int) (s' : HandValueTree) : Prop :=
  s.perform g e.1 = some (e.2, s')

def Created (files : StaticFiles) (g : SGame) (s : HandValueTree) : Prop :=
  ∃ memory, createAllTrees files g memory initial = some s

abbrev QueryRun (files : StaticFiles) (g : SGame) := StepRun (QueryStep g) (Created files g)

abbrev QueryTrace := List (Transition HandValueTree (Query × Int))

/-- The number of cards that the last `ValByCount` asked for, and seven before the first. -/
def lastCount : QueryTrace → Int
  | [] => 7
  | t :: older => t.event.1.countAfter (lastCount older)

/-- The files hold a value for every hand of one to seven cards. -/
structure HandTables (files : StaticFiles) (g : SGame) where
  table : Nat → List UInt8
  found : ∀ k, 1 ≤ k → k ≤ 7 → files.contents (files.handValueFile g k) = some (table k)
  full : ∀ k, 1 ≤ k → k ≤ 7 → 4 * g.numCardsInDeck.choose k ≤ (table k).length

/-- The value of a hand, in any order of its cards. -/
def HandTables.handValue {files : StaticFiles} {g : SGame} (tables : HandTables files g) (cards : List Nat) : Int :=
  intAt (tables.table cards.length) (4 * tupleNumber (cards.insertionSort (· ≥ ·)))

/-- The value of hole cards on a full board from the hands that they beat and those that beat them. -/
def HandTables.riverValue {files : StaticFiles} {g : SGame} (tables : HandTables files g) (board holeCards : List Nat) :
    Int :=
  let others := otherHoleCards g.numCardsInDeck (board ++ holeCards)
  let own := tables.handValue (board ++ holeCards)
  wrapInt32 ((others.countP fun other => own > tables.handValue (board ++ other) : Nat) * 1000 +
    (others.countP fun other => own < tables.handValue (board ++ other) : Nat))

section

variable {files : StaticFiles} {g : SGame} {s s' : HandValueTree} {tables : HandTables files g} {t board holeCards : List Nat}
  {n : Nat} {trace : QueryTrace}

/-- The trees hold the tables, whatever number of cards is set. -/
structure Loaded (tables : HandTables files g) (s : HandValueTree) : Prop where
  numBoardCards : s.numBoardCards = 0
  entries : ∀ t, 1 ≤ t.length → t.length ≤ 7 → FallingBelow g.numCardsInDeck t →
    s.treeEntry t = some (intAt (tables.table t.length) (4 * tupleNumber t))

theorem createAllTrees_loaded (tables : HandTables files g) (hcreated : Created files g s) :
    Loaded tables s ∧ s.numCards = 7 := by
  obtain ⟨memory, hcreated⟩ := hcreated
  have hread := fun k hone hseven => files.readTree_spec (memory k) (tables.found k hone hseven) (tables.full k hone hseven)
  obtain ⟨tree1, h1, hholds1⟩ := hread 1 (by decide) (by decide)
  obtain ⟨tree2, h2, hholds2⟩ := hread 2 (by decide) (by decide)
  obtain ⟨tree3, h3, hholds3⟩ := hread 3 (by decide) (by decide)
  obtain ⟨tree4, h4, hholds4⟩ := hread 4 (by decide) (by decide)
  obtain ⟨tree5, h5, hholds5⟩ := hread 5 (by decide) (by decide)
  obtain ⟨tree6, h6, hholds6⟩ := hread 6 (by decide) (by decide)
  obtain ⟨tree7, h7, hholds7⟩ := hread 7 (by decide) (by decide)
  rw [createAllTrees, if_neg (by decide), StaticFiles.readOne, h1, Option.bind_some, StaticFiles.readTwo, h2,
    Option.bind_some, StaticFiles.readThree, h3, Option.bind_some, StaticFiles.readFour, h4, Option.bind_some,
    StaticFiles.readFive, h5, Option.bind_some, StaticFiles.readSix, h6, Option.bind_some, StaticFiles.readSeven, h7,
    Option.bind_some, Option.some.injEq] at hcreated
  subst hcreated
  refine ⟨⟨rfl, ?_⟩, rfl⟩
  intro t hone hseven hfalls
  have hentry : ∀ k (tree : ValueTree k), ValueTree.Holds k g.numCardsInDeck tree (tables.table k) 0 → t.length = k →
      tree.entry k t = some (intAt (tables.table k) (4 * tupleNumber t)) := by
    intro k tree hholds hk
    rw [hholds t, if_pos ⟨hk, hfalls⟩, Nat.zero_add]
  have hcases : t.length = 1 ∨ t.length = 2 ∨ t.length = 3 ∨ t.length = 4 ∨ t.length = 5 ∨ t.length = 6 ∨ t.length = 7 := by
    omega
  unfold treeEntry
  rcases hcases with h | h | h | h | h | h | h
  · rw [h]
    exact hentry 1 tree1 hholds1 h
  · rw [h]
    exact hentry 2 tree2 hholds2 h
  · rw [h]
    exact hentry 3 tree3 hholds3 h
  · rw [h]
    exact hentry 4 tree4 hholds4 h
  · rw [h]
    exact hentry 5 tree5 hholds5 h
  · rw [h]
    exact hentry 6 tree6 hholds6 h
  · rw [h]
    exact hentry 7 tree7 hholds7 h

/-- A query leaves the trees alone, and only `ValByCount` sets the number of cards. -/
theorem perform_spec {q : Query} {x : Int} (h : s.perform g q = some (x, s')) :
    (∀ t, s'.treeEntry t = s.treeEntry t) ∧ s'.numBoardCards = s.numBoardCards ∧ s'.numCards = q.countAfter s.numCards := by
  cases q with
  | valByCount cards count =>
    rw [perform, Option.map_eq_some_iff] at h
    obtain ⟨_, -, ⟨⟩⟩ := h
    exact ⟨fun _ => rfl, rfl, rfl⟩
  | valOfCards cards =>
    rw [perform, Option.map_eq_some_iff] at h
    obtain ⟨_, -, ⟨⟩⟩ := h
    exact ⟨fun _ => rfl, rfl, rfl⟩
  | val board holeCards =>
    rw [perform, Option.map_eq_some_iff] at h
    obtain ⟨_, -, ⟨⟩⟩ := h
    exact ⟨fun _ => rfl, rfl, rfl⟩
  | getRiverVal board holeCards =>
    rw [perform, Option.map_eq_some_iff] at h
    obtain ⟨_, -, ⟨⟩⟩ := h
    exact ⟨fun _ => rfl, rfl, rfl⟩

/-- A count that lies outside one to seven ends the program. -/
theorem countAfter_range {q : Query} {x : Int} (h : s.perform g q = some (x, s')) (hcount : 1 ≤ s.numCards ∧ s.numCards ≤ 7) :
    1 ≤ q.countAfter s.numCards ∧ q.countAfter s.numCards ≤ 7 := by
  cases q with
  | valByCount cards count =>
    rw [perform, Option.map_eq_some_iff] at h
    obtain ⟨_, hval, -⟩ := h
    by_contra hnot
    have hnone : (s.valByCount cards count).1 = none := if_neg hnot
    rw [hnone] at hval
    cases hval
  | _ => exact hcount

/-- After any queries the trees are as they were created, and the last count is set. -/
theorem loaded_run (tables : HandTables files g) (run : QueryRun files g trace s) :
    Loaded tables s ∧ s.numCards = lastCount trace ∧ 1 ≤ s.numCards ∧ s.numCards ≤ 7 := by
  induction run with
  | start hcreated =>
    obtain ⟨hloaded, hseven⟩ := createAllTrees_loaded tables hcreated
    exact ⟨hloaded, hseven, by omega, by omega⟩
  | @next trace s e s' _ hstep ih =>
    obtain ⟨hloaded, hcount, hrange⟩ := ih
    obtain ⟨hentries, hboard, hnum⟩ := perform_spec hstep
    refine ⟨⟨hboard.trans hloaded.numBoardCards, ?_⟩, ?_, ?_⟩
    · intro t hone hseven hfalls
      rw [hentries]
      exact hloaded.entries t hone hseven hfalls
    · rw [hnum, hcount]
      rfl
    · rw [hnum]
      exact countAfter_range hstep hrange

/-- Merging falling lists without a common card keeps the order. -/
theorem merge_falling (hboard : board.Pairwise (· > ·)) (hhole : holeCards.Pairwise (· > ·))
    (hdisjoint : ∀ b ∈ board, b ∉ holeCards) :
    (board.merge holeCards fun b h => decide (b > h)).Pairwise (· > ·) := by
  induction board generalizing holeCards with
  | nil => simpa using hhole
  | cons b board ih =>
    obtain ⟨hb, hboard'⟩ := List.pairwise_cons.mp hboard
    induction holeCards with
    | nil => simpa using hboard
    | cons h holeCards ihHole =>
      obtain ⟨hh, hhole'⟩ := List.pairwise_cons.mp hhole
      have hne : b ≠ h := by
        rintro rfl
        exact hdisjoint b (by simp) (by simp)
      rcases Nat.lt_or_ge h b with hlt | hge
      · rw [List.cons_merge_cons_pos _ _ _ (decide_eq_true hlt)]
        refine List.pairwise_cons.mpr ⟨?_, ih hboard' hhole fun c hc => hdisjoint c (List.mem_cons_of_mem _ hc)⟩
        intro c hc
        rcases List.mem_merge.mp hc with hc | hc
        · exact hb c hc
        · rcases List.mem_cons.mp hc with rfl | hc
          · exact hlt
          · exact (hh c hc).trans hlt
      · have hbh : b < h := by omega
        rw [List.cons_merge_cons_neg _ _ _ (by simpa using hge)]
        refine List.pairwise_cons.mpr ⟨?_, ihHole hhole' fun c hc hmem => hdisjoint c hc (List.mem_cons_of_mem _ hmem)⟩
        intro c hc
        rcases List.mem_merge.mp hc with hc | hc
        · rcases List.mem_cons.mp hc with rfl | hc
          · exact hbh
          · exact (hb c hc).trans hbh
        · exact hh c hc

theorem sortedCards_falling {cards : List Nat} (hfalls : FallingBelow n t) (hperm : cards.Perm t) :
    sortedCards cards t.length = some t := by
  rw [sortedCards, if_pos hperm.length_eq.ge, List.take_of_length_le hperm.length_eq.le, insertionSort_falling hfalls hperm]

/-- `Val` looks up the hand of the hole cards and as many board cards as the count leaves. -/
theorem Loaded.valOfBoard {k : Nat} (h : Loaded tables s) (hcount : s.numCards = k + 2) (hfive : k ≤ 5)
    (hlength : k ≤ board.length) (hboard : FallingBelow g.numCardsInDeck board)
    (hhole : FallingBelow g.numCardsInDeck holeCards) (htwo : holeCards.length = 2)
    (hdisjoint : ∀ b ∈ board, b ∉ holeCards) :
    s.valOfBoard board holeCards = some (tables.handValue (board.take k ++ holeCards)) := by
  have htake : (board.take k).length = k := by
    rw [List.length_take]
    omega
  have hmerged : FallingBelow g.numCardsInDeck ((board.take k).merge holeCards fun b h => decide (b > h)) := by
    refine ⟨merge_falling (hboard.falls.sublist (List.take_sublist k board)) hhole.falls
      fun b hb => hdisjoint b (List.mem_of_mem_take hb), ?_⟩
    intro c hc
    rcases List.mem_merge.mp hc with hc | hc
    · exact hboard.lt c (List.mem_of_mem_take hc)
    · exact hhole.lt c hc
  have hperm : (board.take k ++ holeCards).Perm ((board.take k).merge holeCards fun b h => decide (b > h)) :=
    (List.merge_perm_append _).symm
  have hsize := hperm.length_eq
  rw [List.length_append, htake, htwo] at hsize
  have hentry := h.entries _ (by omega) (by omega) hmerged
  rw [HandTables.handValue, insertionSort_falling hmerged hperm, hperm.length_eq, ← hentry]
  cases k with
  | zero =>
    match holeCards, htwo with
    | [h0, h1], _ =>
      have hlt : h1 < h0 := (List.pairwise_cons.mp hhole.falls).1 h1 (by simp)
      have hnum : s.numCards = 2 := hcount
      rw [HandValueTree.valOfBoard, if_neg (by omega), if_neg (by rw [h.numBoardCards]; simp),
        if_pos ⟨hnum, h.numBoardCards⟩]
      simp [Nat.not_lt_of_lt hlt]
  | succ k =>
    push_cast at hcount
    have hfront : s.numCards.toNat - 2 = k + 1 := by omega
    rw [HandValueTree.valOfBoard, if_neg (by omega), if_neg (by omega), if_neg (by omega), if_pos (by omega), hfront,
      mergeCards, if_pos ⟨hlength, htwo.ge⟩, List.take_of_length_le htwo.le]
    rfl

theorem exists_falling {cards : List Nat} (hnodup : cards.Nodup) (hlt : ∀ c ∈ cards, c < n) :
    ∃ t, FallingBelow n t ∧ cards.Perm t := by
  have hperm := cards.perm_insertionSort (· ≥ ·)
  refine ⟨cards.insertionSort (· ≥ ·), ⟨?_, fun c hc => hlt c (hperm.mem_iff.mp hc)⟩, hperm.symm⟩
  have hsorted := cards.pairwise_insertionSort (· ≥ ·)
  exact hsorted.imp₂ (fun a b hge hne => lt_of_le_of_ne hge hne.symm) (hperm.nodup_iff.mpr hnodup)

theorem handValue_perm {cards cards' : List Nat} (hperm : cards.Perm cards') :
    tables.handValue cards = tables.handValue cards' := by
  have hsort : cards.insertionSort (· ≥ ·) = cards'.insertionSort (· ≥ ·) :=
    ((cards.perm_insertionSort _).trans (hperm.trans (cards'.perm_insertionSort _).symm)).eq_of_pairwise'
      (cards.pairwise_insertionSort (· ≥ ·)) (cards'.pairwise_insertionSort (· ≥ ·))
  rw [HandTables.handValue, HandTables.handValue, hsort, hperm.length_eq]

theorem otherHoleCards_congr {cards cards' : List Nat} (hmem : ∀ c, c ∈ cards ↔ c ∈ cards') :
    otherHoleCards n cards = otherHoleCards n cards' := by
  simp only [otherHoleCards, hmem]

theorem mem_otherHoleCards {cards other : List Nat} (h : other ∈ otherHoleCards n cards) :
    FallingBelow n other ∧ other.length = 2 ∧ ∀ c ∈ cards, c ∉ other := by
  obtain ⟨hi, hhi, hother⟩ := List.mem_flatMap.mp h
  obtain ⟨lo, hlo, rfl⟩ := List.mem_map.mp hother
  obtain ⟨hrange, hhiOut⟩ := List.mem_filter.mp hhi
  obtain ⟨hlt, hloOut⟩ := List.mem_filter.mp hlo
  rw [List.mem_range'_1] at hrange
  rw [List.mem_range] at hlt
  refine ⟨fallingBelow_cons.mpr ⟨by omega, fallingBelow_cons.mpr ⟨hlt, fallingBelow_nil⟩⟩, rfl, ?_⟩
  intro c hc hmem
  rcases List.mem_cons.mp hmem with rfl | hmem
  · exact of_decide_eq_true hhiOut hc
  · rw [List.mem_singleton.mp hmem] at hc
    exact of_decide_eq_true hloOut hc

/-- The loops of `GetRiverVal` count the hands that are beaten and those that win. -/
theorem countHands_spec {others : List (List Nat)} {look : List Nat → Option Int} {value : List Nat → Int} (own : Int)
    (hlook : ∀ other ∈ others, look other = some (value other)) (win lose : Int) :
    others.foldlM (fun (counts : Int × Int) other =>
        (look other).map fun x =>
          if own > x then (counts.1 + 1, counts.2) else if own < x then (counts.1, counts.2 + 1) else counts) (win, lose) =
      some (win + (others.countP fun other => decide (own > value other) : Nat),
        lose + (others.countP fun other => decide (own < value other) : Nat)) := by
  induction others generalizing win lose with
  | nil => simp
  | cons other others ih =>
    have ih := ih fun o ho => hlook o (List.mem_cons_of_mem _ ho)
    rw [List.foldlM_cons, hlook other (by simp)]
    simp only [Option.map_some, Option.bind_eq_bind, Option.bind_some, List.countP_cons, decide_eq_true_eq]
    rcases Int.lt_trichotomy own (value other) with hlt | heq | hgt
    · have hnot : ¬own > value other := by omega
      rw [if_neg hnot, if_pos hlt, if_neg hnot, if_pos hlt, ih]
      congr 2
      omega
    · have hnot : ¬own > value other ∧ ¬own < value other := by omega
      rw [if_neg hnot.1, if_neg hnot.2, if_neg hnot.1, if_neg hnot.2, ih]
      rfl
    · have hnot : ¬own < value other := by omega
      rw [if_pos hgt, if_pos hgt, if_neg hnot, ih]
      congr 2
      omega

theorem Loaded.getRiverVal (h : Loaded tables s) (hcount : s.numCards = g.numBoardCards g.maxStreet + 2)
    (hfive : g.numBoardCards g.maxStreet ≤ 5) (hboard : board.length = g.numBoardCards g.maxStreet)
    (htwo : holeCards.length = 2) (hnodup : (board ++ holeCards).Nodup)
    (hdeck : ∀ c ∈ board ++ holeCards, c < g.numCardsInDeck) :
    s.getRiverVal g board holeCards = some (tables.riverValue board holeCards) := by
  obtain ⟨hboardNodup, hholeNodup, hdisjoint⟩ := List.nodup_append.mp hnodup
  obtain ⟨sortedBoard, hsortedBoard, hboardPerm⟩ := exists_falling hboardNodup fun c hc => hdeck c (List.mem_append_left _ hc)
  obtain ⟨sortedHole, hsortedHole, hholePerm⟩ := exists_falling hholeNodup fun c hc => hdeck c (List.mem_append_right _ hc)
  have hperm := hboardPerm.append hholePerm
  have hlength : sortedBoard.length = g.numBoardCards g.maxStreet := hboardPerm.length_eq.symm.trans hboard
  have hvalue : ∀ other, FallingBelow g.numCardsInDeck other → other.length = 2 → (∀ b ∈ sortedBoard, b ∉ other) →
      s.valOfBoard sortedBoard other = some (tables.handValue (board ++ other)) := by
    intro other hfalls hother hout
    rw [h.valOfBoard hcount hfive hlength.ge hsortedBoard hfalls hother hout, List.take_of_length_le hlength.le]
    exact congrArg some (handValue_perm (hboardPerm.symm.append_right other))
  have hown := hvalue sortedHole hsortedHole (hholePerm.length_eq.symm.trans htwo) fun b hb hmem =>
    hdisjoint b (hboardPerm.mem_iff.mpr hb) b (hholePerm.mem_iff.mpr hmem) rfl
  rw [handValue_perm (hholePerm.symm.append_left board)] at hown
  have hothers := otherHoleCards_congr (n := g.numCardsInDeck) fun c => hperm.symm.mem_iff (a := c)
  have hlook : ∀ other ∈ otherHoleCards g.numCardsInDeck (board ++ holeCards),
      s.valOfBoard sortedBoard other = some (tables.handValue (board ++ other)) := by
    intro other hother
    obtain ⟨hfalls, hsize, hout⟩ := mem_otherHoleCards hother
    exact hvalue other hfalls hsize fun b hb => hout b (List.mem_append_left _ (hboardPerm.mem_iff.mpr hb))
  have hboardSorted := sortedCards_falling hsortedBoard hboardPerm
  have hholeSorted := sortedCards_falling hsortedHole hholePerm
  rw [hlength] at hboardSorted
  rw [← hholePerm.length_eq, htwo] at hholeSorted
  rw [HandValueTree.getRiverVal]
  dsimp only
  rw [if_neg (by omega), hboardSorted, Option.bind_some, hholeSorted, Option.bind_some, hown, Option.bind_some, hothers,
    countHands_spec _ hlook, Option.map_some]
  simp only [HandTables.riverValue, Int.zero_add]

/-- After any queries, of which the last count was that of a full hand, a board and hole cards get the values of their
full hands. -/
theorem queries_full_hand (tables : HandTables files g) (run : QueryRun files g trace s)
    (hcount : lastCount trace = g.numBoardCards g.maxStreet + 2) (hboard : board.length = g.numBoardCards g.maxStreet)
    (htwo : holeCards.length = 2) (hnodup : (board ++ holeCards).Nodup)
    (hdeck : ∀ c ∈ board ++ holeCards, c < g.numCardsInDeck) :
    (board.Pairwise (· > ·) → holeCards.Pairwise (· > ·) →
        s.valOfBoard board holeCards = some (tables.handValue (board ++ holeCards))) ∧
      s.getRiverVal g board holeCards = some (tables.riverValue board holeCards) := by
  obtain ⟨hloaded, hlast, -, hseven⟩ := loaded_run tables run
  rw [hcount] at hlast
  have hfive : g.numBoardCards g.maxStreet ≤ 5 := by omega
  refine ⟨?_, hloaded.getRiverVal hlast hfive hboard htwo hnodup hdeck⟩
  intro hfallsBoard hfallsHole
  obtain ⟨-, -, hdisjoint⟩ := List.nodup_append.mp hnodup
  rw [hloaded.valOfBoard hlast hfive hboard.ge ⟨hfallsBoard, fun c hc => hdeck c (List.mem_append_left _ hc)⟩
    ⟨hfallsHole, fun c hc => hdeck c (List.mem_append_right _ hc)⟩ htwo fun b hb hmem => hdisjoint b hb b hmem rfl,
    List.take_of_length_le hboard.le]

def eightTables : HandTables eightFiles eightCards where
  table _ := eightValues
  found _ _ _ := rfl
  full := by
    intro k hone hseven
    rw [eightValues, List.length_map, List.length_range]
    interval_cases k <;> decide

def eightCreated : HandValueTree := (createAllTrees eightFiles eightCards (fun _ _ => 0) initial).getD initial

theorem eightCreated_created : Created eightFiles eightCards eightCreated := by
  have hsome : (createAllTrees eightFiles eightCards (fun _ _ => 0) initial).isSome := by decide +kernel
  refine ⟨fun _ _ => 0, ?_⟩
  obtain ⟨s, hs⟩ := Option.isSome_iff_exists.mp hsome
  rw [eightCreated, hs, Option.getD_some]

/-- The states and answers of some queries after the trees are created. -/
def eightQueries (queries : List Query) : QueryTrace × HandValueTree :=
  runFrom (fun s q => (s.perform eightCards q).map fun answer => ((q, answer.1), answer.2)) eightCreated queries

theorem eightQueries_run (queries : List Query) :
    QueryRun eightFiles eightCards (eightQueries queries).1 (eightQueries queries).2 := by
  refine StepRun.runFrom ?_ eightCreated_created queries
  intro s q e s' h
  obtain ⟨⟨x, s''⟩, hperform, heq⟩ := Option.map_eq_some_iff.mp h
  cases heq
  exact hperform

theorem queries_full_hand_eightCards :
    lastCount (eightQueries [.valByCount [0, 6, 3, 1, 5] 5, .valByCount [0, 7, 6, 3, 1, 5, 4] 7]).1 = 7 ∧
      ([7, 6, 5, 4, 3].Pairwise (· > ·) → [1, 0].Pairwise (· > ·) →
        (eightQueries [.valByCount [0, 6, 3, 1, 5] 5, .valByCount [0, 7, 6, 3, 1, 5, 4] 7]).2.valOfBoard [7, 6, 5, 4, 3] [1, 0] =
          some (eightTables.handValue [7, 6, 5, 4, 3, 1, 0])) ∧
      (eightQueries [.valByCount [0, 6, 3, 1, 5] 5, .valByCount [0, 7, 6, 3, 1, 5, 4] 7]).2.getRiverVal eightCards
        [7, 6, 5, 4, 3] [1, 0] = some (eightTables.riverValue [7, 6, 5, 4, 3] [1, 0]) := by
  refine ⟨by decide +kernel, ?_⟩
  exact queries_full_hand eightTables (eightQueries_run _) (by decide +kernel) rfl rfl (by decide) (by decide)

/-- After a query for five cards the value of a hand of seven cards is that of five of them. -/
theorem query_of_five_cards_changes_value :
    ∃ trace s, QueryRun eightFiles eightCards trace s ∧ lastCount trace = 5 ∧
      s.valOfBoard [7, 6, 5, 4, 3] [1, 0] = some (eightTables.handValue [7, 6, 5, 1, 0]) ∧
      s.valOfBoard [7, 6, 5, 4, 3] [1, 0] ≠ some (eightTables.handValue [7, 6, 5, 4, 3, 1, 0]) := by
  have run := eightQueries_run [.valByCount [0, 6, 3, 1, 5] 5]
  have hlast : lastCount (eightQueries [.valByCount [0, 6, 3, 1, 5] 5]).1 = 5 := by decide +kernel
  obtain ⟨hloaded, hcount, -⟩ := loaded_run eightTables run
  have hboard : FallingBelow eightCards.numCardsInDeck [7, 6, 5, 4, 3] := by decide
  have hhole : FallingBelow eightCards.numCardsInDeck [1, 0] := by decide
  have hvalue := hloaded.valOfBoard (k := 3) (hcount.trans hlast) (by decide) (by decide) hboard hhole rfl (by decide)
  refine ⟨_, _, run, hlast, hvalue, ?_⟩
  rw [hvalue]
  decide +kernel

end

end HandValueTree

end MasterAI
