import MasterAI.CfrTransport
import MasterAI.CfrValues

namespace MasterAI

def errInvalidKey : Int := -1

namespace LoadConf

/-- The entry of `CountNumNonterminals` for a player and a street. -/
def numNonterminals (conf : LoadConf) (st p : Nat) : Nat :=
  (conf.root.readCalls p st).foldl (fun num node => if node.id ≥ num then node.id + 1 else num) 0

/-- `CheckKeys` for a loaded strategy. -/
def checkKeys (conf : LoadConf) (key : CFRKey) : Int :=
  if key.st < 0 ∨ key.st > conf.maxStreet then errInvalidKey
  else if key.pa < 0 ∨ key.pa ≥ conf.numPlayers then errInvalidKey
  else if key.nodeId < 0 ∨ key.nodeId ≥ conf.numNonterminals key.st.toNat key.pa.toNat then errInvalidKey
  else
    let numBuckets := conf.numHoldings key.st.toNat
    let maxIdx := wrapInt32 (numBuckets * key.numSucc)
    if key.offset < 0 ∨ wrapInt32 (key.offset + key.numSucc) > maxIdx then errInvalidKey else errOk

end LoadConf

/-- `GetOneStrategyVals` on a street: the entries before their conversion, nothing where there is no table or an entry
lies outside it. -/
def CFRStreetValues.getOneStrategyVals (table : CFRStreetValues) (p nt : Nat) (offset numSuccs : Int) :
    Option (List CfrValue) :=
  (table.data p nt).bind fun values =>
    if 0 ≤ offset ∧ offset + numSuccs ≤ values.length then some ((values.drop offset.toNat).take numSuccs.toNat) else none

/-- The values that `GetVals` puts into its vector of as many as asked for; nothing where the program leaves the tables
or the vector has no such size. -/
def CFRValues.getOneStrategyVals (v : CFRValues) (key : CFRKey) : Option (List CfrValue) :=
  if key.numSucc < 0 then none
  else (v.streetValues key.st.toNat).bind fun table =>
    table.getOneStrategyVals key.pa.toNat key.nodeId.toNat key.offset key.numSucc

/-- An accepted key asks for some entries, all of which there are, and the check has computed their bounds. -/
structure SafeKey (conf : LoadConf) (v : CFRValues) (key : CFRKey) : Prop where
  positive : 0 < key.numSucc
  product : FitsInt32 (conf.numHoldings key.st.toNat * key.numSucc)
  bound : FitsInt32 (key.offset + key.numSucc)
  reads : ∃ table values, v.streetValues key.st.toNat = some table ∧
    table.data key.pa.toNat key.nodeId.toNat = some values ∧ 0 ≤ key.offset ∧ key.offset + key.numSucc ≤ values.length ∧
    v.getOneStrategyVals key = some ((values.drop key.offset.toNat).take key.numSucc.toNat)

namespace LoadConf

/-- The street, the player, the node or the offset of a key lies outside the ranges of the strategy. -/
def OutsideRanges (conf : LoadConf) (key : CFRKey) : Prop :=
  key.st < 0 ∨ key.st > conf.maxStreet ∨ key.pa < 0 ∨ key.pa ≥ conf.numPlayers ∨ key.nodeId < 0 ∨
    key.nodeId ≥ conf.numNonterminals key.st.toNat key.pa.toNat ∨ key.offset < 0

/-- The node of a key has more than one successor, and the key asks for no more than these, or for entries before
the end of those of all holdings. -/
def CoversKey (conf : LoadConf) (key : CFRKey) : Prop :=
  ∃ node ∈ conf.valueNodes key.pa.toNat key.st.toNat, node.id = key.nodeId ∧
    (key.numSucc ≤ node.numSuccs ∧ FitsInt32 (conf.numHoldings key.st.toNat * node.numSuccs) ∨
      key.offset + key.numSucc ≤ node.numActions (conf.numHoldings key.st.toNat))

/-- A key that lies outside, or one without overflow that its node covers. -/
def KeyInside (conf : LoadConf) (key : CFRKey) : Prop :=
  conf.OutsideRanges key ∨
    wrapInt32 (key.offset + key.numSucc) > wrapInt32 (conf.numHoldings key.st.toNat * key.numSucc) ∨
    0 < key.numSucc ∧ FitsInt32 (conf.numHoldings key.st.toNat * key.numSucc) ∧ FitsInt32 (key.offset + key.numSucc) ∧
      conf.CoversKey key

end LoadConf

section

variable {conf : LoadConf} {v : CFRValues} {key : CFRKey} {p st numHoldings : Nat} {type : CFRValueType} {nodes : List Node}
  {row row' : ValueRow} {r s : Reader} {seen : List Nat}

/-- The nodes that get values are the ones whose rows there are afterwards. -/
theorem readRows_isSome (hseen : ∀ nt, (row nt).isSome ↔ nt ∈ seen)
    (hread : readRows numHoldings type nodes (row, r) = some (row', s)) (nt : Nat) :
    (row' nt).isSome ↔ nt ∈ seen ∨ ∃ node ∈ newNodes seen nodes, node.id = nt := by
  induction nodes generalizing row r seen with
  | nil =>
    cases hread
    simp [newNodes, hseen]
  | cons node nodes ih =>
    obtain ⟨⟨row₁, r₁⟩, hfirst, hrest⟩ := Option.bind_eq_some_iff.mp hread
    unfold readRow at hfirst
    dsimp only at hfirst
    split at hfirst
    · rename_i hsuccs
      cases hfirst
      rw [newNodes, if_pos (Or.inl hsuccs)]
      exact ih hseen hrest
    split at hfirst
    · rename_i hsome
      cases hfirst
      rw [newNodes, if_pos (Or.inr ((hseen _).mp hsome))]
      exact ih hseen hrest
    split at hfirst
    · cases hfirst
    rename_i hsuccs hsome _
    obtain ⟨⟨values, r₂⟩, -, hrow⟩ := Option.map_eq_some_iff.mp hfirst
    cases hrow
    rw [hseen] at hsome
    have hseen' : ∀ nt, (Function.update row node.id (some values) nt).isSome ↔ nt ∈ node.id :: seen := by
      intro nt
      rw [List.mem_cons, ← hseen nt]
      by_cases hnt : nt = node.id
      · subst hnt
        simp
      · simp [hnt]
    rw [newNodes, if_neg (not_or.mpr ⟨hsuccs, hsome⟩), ih hseen' hrest]
    simp only [List.mem_cons, exists_eq_or_imp]
    constructor
    · rintro ((rfl | hold) | hnew)
      · exact .inr (.inl rfl)
      · exact .inl hold
      · exact .inr (.inr hnew)
    · rintro (hold | rfl | hnew)
      · exact .inl (.inr hold)
      · exact .inl (.inl rfl)
      · exact .inr hnew

/-- In an accepted load the tables of a player on a street are those of the nodes that get values. -/
theorem RunsAlone.data_eq_some (h : RunsAlone conf v p st) (hfile : (p, st) ∈ conf.files) (hdone : v.finished conf)
    (hresult : v.result conf = errOk) :
    ∃ table, v.streetValues st = some table ∧ (∀ nt, (table.data p nt).isSome ↔ ∃ node ∈ conf.valueNodes p st, node.id = nt) ∧
      ∀ node ∈ conf.valueNodes p st, (table.data p node.id).map List.length =
        some (node.numActions (conf.numHoldings st)).toNat := by
  obtain ⟨-, -, -, table', -, -, htable', -, hlengths, -⟩ := h.accepted hfile hdone hresult
  obtain ⟨done, found, opened, table, reader, hcalls, -, -, htable, -, -, -, hrows⟩ := h
  rw [hdone (p, st) hfile, List.append_nil] at hcalls
  subst hcalls
  obtain rfl : table = table' := Option.some.inj (htable.symm.trans htable')
  refine ⟨table, htable, ?_, hlengths⟩
  intro nt
  have hsome := readRows_isSome (show ∀ nt, _ ↔ nt ∈ [] by simp) hrows nt
  simpa [LoadConf.valueNodes] using hsome

theorem LoadConf.checkKeys_iff :
    conf.checkKeys key = errOk ↔ ¬conf.OutsideRanges key ∧
      wrapInt32 (key.offset + key.numSucc) ≤ wrapInt32 (conf.numHoldings key.st.toNat * key.numSucc) := by
  have hne : errInvalidKey ≠ errOk := by decide
  unfold checkKeys OutsideRanges
  by_cases hst : key.st < 0 ∨ key.st > conf.maxStreet
  · rw [if_pos hst]
    simp only [hne, false_iff]
    omega
  rw [if_neg hst]
  by_cases hpa : key.pa < 0 ∨ key.pa ≥ conf.numPlayers
  · rw [if_pos hpa]
    simp only [hne, false_iff]
    omega
  rw [if_neg hpa]
  by_cases hnt : key.nodeId < 0 ∨ key.nodeId ≥ conf.numNonterminals key.st.toNat key.pa.toNat
  · rw [if_pos hnt]
    simp only [hne, false_iff]
    omega
  rw [if_neg hnt]
  by_cases hoffset : key.offset < 0 ∨ wrapInt32 (key.offset + key.numSucc) >
      wrapInt32 (conf.numHoldings key.st.toNat * key.numSucc)
  · rw [if_pos hoffset]
    simp only [hne, false_iff]
    omega
  · rw [if_neg hoffset]
    simp only [true_iff]
    omega

/-- Where a table holds all entries of a key, they are what is returned. -/
theorem CFRValues.getOneStrategyVals_eq {table : CFRStreetValues} {values : List CfrValue} (hpos : 0 < key.numSucc)
    (htable : v.streetValues key.st.toNat = some table) (hdata : table.data key.pa.toNat key.nodeId.toNat = some values)
    (hoffset : 0 ≤ key.offset) (hfits : key.offset + key.numSucc ≤ values.length) :
    v.getOneStrategyVals key = some ((values.drop key.offset.toNat).take key.numSucc.toNat) := by
  rw [getOneStrategyVals, if_neg (by omega), htable, Option.bind_some, CFRStreetValues.getOneStrategyVals, hdata,
    Option.bind_some, if_pos ⟨hoffset, hfits⟩]

theorem LoadConf.inside_of_not_outside (h : ¬conf.OutsideRanges key) :
    (key.pa.toNat, key.st.toNat) ∈ conf.files ∧ 0 ≤ key.nodeId ∧ 0 ≤ key.offset := by
  unfold OutsideRanges at h
  refine ⟨mem_files.mpr ⟨by omega, by omega⟩, by omega, by omega⟩

theorem le_toNat_iff {x y : Int} (hx : 0 < x) : x ≤ y.toNat ↔ x ≤ y := by omega

/-- For a loaded strategy the check of a key keeps its promise exactly where the key lies inside. -/
theorem checkKeys_safe_iff {trace : List (Transition CFRValues (Nat × Nat))} (run : LoadRun conf trace v)
    (hdone : v.finished conf) (hresult : v.result conf = errOk) :
    (conf.checkKeys key = errOk → SafeKey conf v key) ↔ conf.KeyInside key := by
  constructor
  · intro hsafe
    by_cases hranges : conf.OutsideRanges key
    · exact .inl hranges
    by_cases hwrap : wrapInt32 (key.offset + key.numSucc) > wrapInt32 (conf.numHoldings key.st.toNat * key.numSucc)
    · exact .inr (.inl hwrap)
    obtain ⟨hpos, hproduct, hbound, table, values, htable, hdata, hoffset, hfits, -⟩ :=
      hsafe (LoadConf.checkKeys_iff.mpr ⟨hranges, not_lt.mp hwrap⟩)
    obtain ⟨hfile, hnt, -⟩ := LoadConf.inside_of_not_outside hranges
    obtain ⟨table', htable', hrows, hlengths⟩ := (runsAlone run _ hfile).data_eq_some hfile hdone hresult
    obtain rfl : table = table' := Option.some.inj (htable.symm.trans htable')
    obtain ⟨node, hnode, hid⟩ := (hrows key.nodeId.toNat).mp (by rw [hdata]; rfl)
    have hlength := hlengths node hnode
    rw [hid, hdata, Option.map_some, Option.some.injEq] at hlength
    rw [hlength, le_toNat_iff (Int.add_pos_of_nonneg_of_pos hoffset hpos)] at hfits
    exact .inr (.inr ⟨hpos, hproduct, hbound, node, hnode, by rw [hid, Int.toNat_of_nonneg hnt], .inr hfits⟩)
  · intro hinside hcheck
    obtain ⟨hranges, haccepted⟩ := LoadConf.checkKeys_iff.mp hcheck
    rcases hinside with hout | hwrap | ⟨hpos, hproduct, hbound, node, hnode, hid, hcovers⟩
    · exact absurd hout hranges
    · exact absurd haccepted (not_le.mpr hwrap)
    obtain ⟨hfile, -, hoffset⟩ := LoadConf.inside_of_not_outside hranges
    obtain ⟨table, htable, hrows, hlengths⟩ := (runsAlone run _ hfile).data_eq_some hfile hdone hresult
    rw [wrapInt32_eq hproduct, wrapInt32_eq hbound] at haccepted
    have hactions : key.offset + key.numSucc ≤ node.numActions (conf.numHoldings key.st.toNat) := by
      rcases hcovers with ⟨hsuccs, hroom⟩ | hcovers
      · rw [Node.numActions, wrapInt32_eq hroom]
        exact haccepted.trans
          (Int.mul_le_mul_of_nonneg_left hsuccs (Int.natCast_nonneg (conf.numHoldings key.st.toNat)))
      · exact hcovers
    have hnt : node.id = key.nodeId.toNat := by rw [← hid, Int.toNat_natCast]
    have hlength := hlengths node hnode
    rw [hnt] at hlength
    obtain ⟨values, hdata, hsize⟩ := Option.map_eq_some_iff.mp hlength
    have hfits : key.offset + key.numSucc ≤ values.length := by
      rw [hsize, le_toNat_iff (Int.add_pos_of_nonneg_of_pos hoffset hpos)]
      exact hactions
    exact ⟨hpos, hproduct, hbound, table, values, htable, hdata, hoffset, hfits,
      CFRValues.getOneStrategyVals_eq hpos htable hdata hoffset hfits⟩

/-- A loaded strategy in which each player has one node with two successors and one holding. -/
def smallStrategy : List (Transition CFRValues (Nat × Nat)) × CFRValues := (smallLoad .char [1, 2]).after [(1, 0), (0, 0)]

def smallKey (offset numSucc : Int) : CFRKey := ⟨0, 0, 1, offset, numSucc⟩

theorem checkKeys_safe_smallKey : SafeKey (smallLoad .char [1, 2]) smallStrategy.2 (smallKey 0 2) := by
  have hinside : (smallLoad .char [1, 2]).KeyInside (smallKey 0 2) := by
    refine .inr (.inr ⟨by decide, ⟨by decide, by decide⟩, ⟨by decide, by decide⟩, ?_⟩)
    exact ⟨_, List.mem_singleton.mpr rfl, rfl, .inl ⟨by decide, by decide, by decide⟩⟩
  exact (checkKeys_safe_iff (LoadConf.after_run (by decide +kernel) [(1, 0), (0, 0)]) (by decide +kernel)
    (by decide +kernel)).mpr hinside (by decide +kernel)

/-- Keys that ask for a negative number of entries, or for more than a node has, are accepted. -/
theorem accepted_keys_unsafe :
    ∃ trace v, LoadRun (smallLoad .char [1, 2]) trace v ∧ v.finished (smallLoad .char [1, 2]) ∧
      v.result (smallLoad .char [1, 2]) = errOk ∧
      (smallLoad .char [1, 2]).checkKeys (smallKey 0 (-1)) = errOk ∧
      ¬SafeKey (smallLoad .char [1, 2]) v (smallKey 0 (-1)) ∧
      (smallLoad .char [1, 2]).checkKeys (smallKey 0 3) = errOk ∧ v.getOneStrategyVals (smallKey 0 3) = none ∧
      ¬SafeKey (smallLoad .char [1, 2]) v (smallKey 0 3) := by
  have hnone : smallStrategy.2.getOneStrategyVals (smallKey 0 3) = none := by decide +kernel
  refine ⟨_, smallStrategy.2, LoadConf.after_run (by decide +kernel) [(1, 0), (0, 0)], by decide +kernel,
    by decide +kernel, by decide +kernel, ?_, by decide +kernel, hnone, ?_⟩
  · intro hsafe
    exact absurd hsafe.positive (by decide)
  · intro hsafe
    obtain ⟨-, values, -, -, -, -, hreads⟩ := hsafe.reads
    rw [hnone] at hreads
    cases hreads

end

end MasterAI
