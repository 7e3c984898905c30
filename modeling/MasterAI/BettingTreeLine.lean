import MasterAI.CfrReply

namespace MasterAI

/-- The pieces of a text between the separators, without an empty piece at the end. -/
def fieldsOf (d : Char) (text : List Char) : List (List Char) :=
  if (text.splitOn d).getLast? = some [] then (text.splitOn d).dropLast else text.splitOn d

/-- `ParseStrToNode`, with its result and the node as it leaves it. There is no result where the sum
`4 + num_succ` overflows, and where the range of the child texts is reversed or runs past the fields. -/
def parseStrToNode (infoStr : List Char) (node : NodeInfo) : Option (Int × NodeInfo) :=
  let splitStr := splitString infoStr [',']
  if splitStr.length < 4 then some (-1, node)
  else
    match (splitStr.take 4).mapM fun field => (scanInt32 field).map Prod.fst with
    | some [nodeId, street, numSucc, pa] =>
      if int32Max < 4 + numSucc then none
      else if wrapInt32 splitStr.length < 4 + numSucc then some (-3, node)
      else if numSucc < 0 ∨ (splitStr.length : Int) < 4 + numSucc then none
      else
        some (0,
          { nodeId := nodeId
            street := toUInt8 street
            actingPlayer := toUInt8 pa
            childNode := (splitStr.drop 4).take numSucc.toNat })
    | _ => some (-2, node)

structure LineHeader where
  nodeId : Int
  street : Int
  numSucc : Int
  actingPlayer : Int
  deriving DecidableEq, Repr

/-- The numbers of the first four fields of a line, if it has them. -/
def lineHeader (line : List Char) : Option LineHeader :=
  match ((fieldsOf ',' line).take 4).mapM fun field => (scanInt32 field).map Prod.fst with
  | some [nodeId, street, numSucc, actingPlayer] => some { nodeId, street, numSucc, actingPlayer }
  | _ => none

/-- The node that a line with a header describes. -/
structure DescribesNode (line : List Char) (h : LineHeader) (node : NodeInfo) : Prop where
  nodeId : node.nodeId = h.nodeId
  street : (node.street : Int) = h.street
  actingPlayer : (node.actingPlayer : Int) = h.actingPlayer
  numSucc_nonneg : 0 ≤ h.numSucc
  children : node.childNode = ((fieldsOf ',' line).drop 4).take h.numSucc.toNat
  childCount : (node.childNode.length : Int) = h.numSucc

/-- A line is refused and the node stays as it was, or the node is the one that the line describes. -/
def ParsesLine (line : List Char) (node : NodeInfo) : Prop :=
  ∃ err result, parseStrToNode line node = some (err, result) ∧
    (err ≠ 0 ∧ result = node ∨ err = 0 ∧ ∃ h, lineHeader line = some h ∧ DescribesNode line h result)

/-- Four can be added to the count of a header, and a header that the length check lets through has a
count that is not negative and a street and a player of one byte. -/
def LineHeader.Fits (h : LineHeader) (fields : Nat) : Prop :=
  4 + h.numSucc ≤ int32Max ∧
    (4 + h.numSucc ≤ wrapInt32 fields →
      0 ≤ h.numSucc ∧ (0 ≤ h.street ∧ h.street < 256) ∧ 0 ≤ h.actingPlayer ∧ h.actingPlayer < 256)

instance (h : LineHeader) (fields : Nat) : Decidable (h.Fits fields) := inferInstanceAs (Decidable (_ ∧ _))

section

variable {d : Char} {a b text : List Char}

theorem fieldsOf_of_notMem (h : d ∉ text) : fieldsOf d text = if text = [] then [] else [text] := by
  simp [fieldsOf, List.splitOn_eq_singleton h]

theorem fieldsOf_append_cons (h : d ∉ a) : fieldsOf d (a ++ d :: b) = a :: fieldsOf d b := by
  obtain ⟨p, rest, hp⟩ := List.exists_cons_of_ne_nil (List.splitOn_ne_nil d b)
  unfold fieldsOf
  rw [List.splitOn_append_cons_self_of_not_mem h, hp]
  simp only [List.getLast?_cons_cons, List.dropLast_cons_cons]
  split <;> rfl

theorem splitFrom_eq_fieldsOf {places : Nat} (h : text.length ≤ places) : splitFrom [d] places text = fieldsOf d text := by
  induction places generalizing text with
  | zero =>
    obtain rfl := List.length_eq_zero_iff.mp (Nat.le_zero.mp h)
    rfl
  | succ places ih =>
    by_cases hd : d ∈ text
    · obtain ⟨a, b, rfl, ha⟩ := List.eq_append_cons_of_mem hd
      have hfound : strstr [d] (a ++ d :: b) = some (d :: b) := strstr_append (n := []) ha
      have hb : b.length ≤ places := by
        simp only [List.length_append, List.length_cons] at h
        omega
      rw [splitFrom, hfound, fieldsOf_append_cons ha]
      dsimp only
      rw [take_length_sub, List.length_singleton, List.drop_one, List.tail_cons, ih hb]
    · have hnone : strstr [d] text = none := strstr_eq_none (not_infix_of_not_mem (by simp) hd)
      rw [splitFrom, hnone, fieldsOf_of_notMem hd]

/-- `SplitString` finds the fields of a text. -/
theorem splitString_eq_fieldsOf : splitString text [d] = fieldsOf d text :=
  splitFrom_eq_fieldsOf le_rfl

end

theorem length_of_mapM {α β : Type} {f : α → Option β} {l : List α} {found : List β} (h : l.mapM f = some found) :
    found.length = l.length := by
  induction l generalizing found with
  | nil =>
    cases h
    rfl
  | cons x l ih =>
    rw [List.mapM_cons] at h
    obtain ⟨y, -, h⟩ := Option.bind_eq_some_iff.mp h
    obtain ⟨ys, hys, h⟩ := Option.bind_eq_some_iff.mp h
    cases h
    rw [List.length_cons, List.length_cons, ih hys]

theorem wrapInt32_natCast_le (n : Nat) : wrapInt32 n ≤ n := by
  simp only [wrapInt32, Int.bmod_def]
  omega

section

variable {line : List Char} {node : NodeInfo} {h : LineHeader}

theorem four_le_of_lineHeader (hh : lineHeader line = some h) : 4 ≤ (fieldsOf ',' line).length := by
  unfold lineHeader at hh
  split at hh
  next found =>
    have hlen := length_of_mapM found
    simp only [List.length_cons, List.length_nil, List.length_take] at hlen
    omega
  next => cases hh

/-- A line without a header is refused. -/
theorem parseStrToNode_refused (hh : lineHeader line = none) :
    ∃ err, err ≠ 0 ∧ parseStrToNode line node = some (err, node) := by
  unfold lineHeader at hh
  unfold parseStrToNode
  rw [splitString_eq_fieldsOf]
  dsimp only
  split
  · exact ⟨-1, by decide, rfl⟩
  · split at hh
    next => cases hh
    next => exact ⟨-2, by decide, rfl⟩

/-- What a line with a header makes of the node. -/
theorem parseStrToNode_header (hh : lineHeader line = some h) :
    parseStrToNode line node =
      if int32Max < 4 + h.numSucc then none
      else if wrapInt32 (fieldsOf ',' line).length < 4 + h.numSucc then some (-3, node)
      else if h.numSucc < 0 ∨ ((fieldsOf ',' line).length : Int) < 4 + h.numSucc then none
      else
        some (0,
          { nodeId := h.nodeId
            street := toUInt8 h.street
            actingPlayer := toUInt8 h.actingPlayer
            childNode := ((fieldsOf ',' line).drop 4).take h.numSucc.toNat }) := by
  have hfour := four_le_of_lineHeader hh
  unfold lineHeader at hh
  unfold parseStrToNode
  rw [splitString_eq_fieldsOf]
  dsimp only
  rw [if_neg (by omega)]
  split at hh
  next =>
    cases hh
    rfl
  next => cases hh

theorem toUInt8_cast_eq (x : Int) : (toUInt8 x : Int) = x ↔ 0 ≤ x ∧ x < 256 := by
  unfold toUInt8
  omega

/-- A line is parsed as it stands, or refused without a trace, exactly when the header it may have fits. -/
theorem parsesLine_iff (line : List Char) (node : NodeInfo) :
    ParsesLine line node ↔ ∀ h, lineHeader line = some h → h.Fits (fieldsOf ',' line).length := by
  cases hh : lineHeader line with
  | none =>
    obtain ⟨err, herr, hparse⟩ := @parseStrToNode_refused line node hh
    refine iff_of_true ⟨err, node, hparse, Or.inl ⟨herr, rfl⟩⟩ ?_
    intro h hnone
    cases hnone
  | some h =>
    have hparse := @parseStrToNode_header line node h hh
    have hwrap := wrapInt32_natCast_le (fieldsOf ',' line).length
    simp only [Option.some.injEq, forall_eq']
    constructor
    · rintro ⟨err, result, hresult, hkept⟩
      rw [hparse] at hresult
      split at hresult
      next => cases hresult
      next hsum =>
        refine ⟨not_lt.mp hsum, fun hlong => ?_⟩
        rw [if_neg (not_lt.mpr hlong)] at hresult
        split at hresult
        next => cases hresult
        next hrange =>
          cases hresult
          obtain ⟨herr, -⟩ | ⟨-, h', hh', hdescribes⟩ := hkept
          · exact absurd rfl herr
          · cases hh.symm.trans hh'
            exact ⟨hdescribes.numSucc_nonneg, (toUInt8_cast_eq _).mp hdescribes.street,
              (toUInt8_cast_eq _).mp hdescribes.actingPlayer⟩
    · rintro ⟨hsum, hfits⟩
      rw [ParsesLine, hparse, if_neg (not_lt.mpr hsum)]
      by_cases hshort : wrapInt32 (fieldsOf ',' line).length < 4 + h.numSucc
      · exact ⟨-3, node, if_pos hshort, Or.inl ⟨by decide, rfl⟩⟩
      · obtain ⟨hnum, hstreet, hplayer⟩ := hfits (not_lt.mp hshort)
        rw [if_neg hshort, if_neg (by omega)]
        refine ⟨0, _, rfl, Or.inr ⟨rfl, h, hh, ?_⟩⟩
        refine ⟨rfl, (toUInt8_cast_eq _).mpr hstreet, (toUInt8_cast_eq _).mpr hplayer, hnum, rfl, ?_⟩
        dsimp only
        rw [List.length_take, List.length_drop]
        omega

end

/-- A node as its constructor leaves it. -/
def freshNode : NodeInfo := { nodeId := -1, street := 0, actingPlayer := 0, childNode := [] }

/-- A negative count passes the length check and reverses the range of the child texts, and a street of
two bytes is cut to one. -/
theorem negative_count_reverses_range :
    parseStrToNode "7,1,-1,0".toList freshNode = none ∧ ¬ParsesLine "7,1,-1,0".toList freshNode ∧
      ¬ParsesLine "7,300,0,0".toList freshNode := by
  have hnone : parseStrToNode "7,1,-1,0".toList freshNode = none := by
    decide +kernel
  have hcut : parseStrToNode "7,300,0,0".toList freshNode = some (0, ⟨7, 44, 0, []⟩) := by
    decide +kernel
  refine ⟨hnone, ?_, ?_⟩
  · rintro ⟨err, result, hresult, -⟩
    rw [hnone] at hresult
    cases hresult
  · rintro ⟨err, result, hresult, hkept⟩
    rw [hcut] at hresult
    cases hresult
    obtain ⟨herr, -⟩ | ⟨-, h, hh, hdescribes⟩ := hkept
    · exact herr rfl
    · have hheader : lineHeader "7,300,0,0".toList = some ⟨7, 300, 0, 0⟩ := by
        decide +kernel
      rw [hheader] at hh
      cases hh
      exact absurd hdescribes.street (by decide)

end MasterAI
