import MasterAI.ActionTreeRead

namespace MasterAI

open ActionTree

theorem modify_append {β : Type*} {front back : List β} {i : Nat} (f : β → β) (h : i < front.length) :
    (front ++ back).modify i f = front.modify i f ++ back := by
  induction front generalizing i with
  | nil => cases h
  | cons b front ih =>
    cases i with
    | zero => simp
    | succ i =>
      have hi : i < front.length := by simpa using h
      simp [ih hi]

theorem modify_length {β : Type*} (front : List β) (b : β) (f : β → β) :
    (front ++ [b]).modify front.length f = front ++ [f b] := by
  induction front with
  | nil => simp
  | cons c front ih => simp [ih]

theorem getElem?_append_some {β : Type*} {front back : List β} {k : Nat} {b : β} (h : front[k]? = some b) :
    (front ++ back)[k]? = some b := by
  obtain ⟨hk, -⟩ := List.getElem?_eq_some_iff.mp h
  rw [List.getElem?_append_left hk, h]

theorem wrapInt32_add_one (x : Int) : wrapInt32 (wrapInt32 x + 1) = wrapInt32 (x + 1) := by
  simp only [wrapInt32, Int.bmod_def]
  omega

namespace BettingDag

variable {numPlayers maxStreet : Nat} {α : Type*} [DecidableEq α] {T : BettingDag numPlayers maxStreet α}
  {seen found found₁ found₂ pending visits : List α} {bytes rest : List UInt8} {a : α} {k node i : Nat}
  {s s₁ s₂ s' : ReadState}

theorem Stored.append {n : ActionTree.Node} (more : List α) (h : T.Stored seen a n) : T.Stored (seen ++ more) a n := by
  obtain ⟨ks, hks, hn⟩ := h
  exact ⟨ks, hks.imp fun k b hk => getElem?_append_some hk, hn⟩

theorem Ready.setIthSucc (h : T.Ready seen bytes s) (node i k : Nat) : T.Ready seen bytes (s.setIthSucc node i k) where
  reader := h.reader
  length := by
    unfold ReadState.setIthSucc
    rw [List.length_modify]
    exact h.length
  fresh := h.fresh
  known := h.known
  count := h.count

theorem Ready.leaf (h : T.Ready seen (T.record a ++ rest) s) (hleaf : T.succs a = []) :
    ∃ k s', T.NodeRead seen [a] rest a k s s' := by
  obtain ⟨r, hfields, hahead⟩ := T.readFields_record h.reader
  refine ⟨s.nodes.length,
    { s with reader := r, nodes := s.nodes ++ [T.newNode a], numTerminals := wrapInt32 (s.numTerminals + 1) }, ?_⟩
  constructor
  · refine ⟨1, fun depth hdepth => ?_⟩
    obtain ⟨depth, rfl⟩ := Nat.exists_eq_add_of_le' hdepth
    rw [ActionTree.read, hfields]
    simp [fields, hleaf, ReadState.alloc, newNode]
  · constructor
    · exact hahead
    · simp [h.length]
    · intro b hb hnot
      exact h.fresh b hb fun hmem => hnot (List.mem_append_left _ hmem)
    · intro b hb hmem
      have hne : b ≠ a := fun heq => hb (heq ▸ hleaf)
      obtain ⟨k, hk, hplace⟩ := h.known b hb (by simpa [hne] using hmem)
      exact ⟨k, hk, getElem?_append_some hplace⟩
    · simp only [h.count, terminalCount, List.countP_append, List.countP_singleton, hleaf, List.isEmpty_nil, if_true]
      rw [wrapInt32_add_one]
      rfl
  · simp [h.length]
  · refine ⟨[T.newNode a], rfl, .cons ⟨[], ?_, ?_⟩ .nil⟩
    · rw [hleaf]
      exact .nil
    · simp [newNode, Node.new, hleaf]

theorem Ready.again (h : T.Ready seen (T.record a ++ rest) s) (hinner : T.succs a ≠ []) (hseen : a ∈ seen) :
    ∃ k s', T.NodeRead seen [] rest a k s s' := by
  obtain ⟨r, hfields, hahead⟩ := T.readFields_record h.reader
  obtain ⟨k, hk, hplace⟩ := h.known a hinner hseen
  have hindex := T.mapIndex_lt hinner
  have hpos := List.length_pos_iff.mpr hinner
  refine ⟨k, { s with reader := r }, ?_⟩
  unfold mapIndex mapId NodeHeader.street at *
  constructor
  · refine ⟨1, fun depth hdepth => ?_⟩
    obtain ⟨depth, rfl⟩ := Nat.exists_eq_add_of_le' hdepth
    rw [ActionTree.read, hfields]
    simp [fields, hpos, hindex, hk]
  · rw [List.append_nil]
    exact ⟨hahead, h.length, h.fresh, h.known, h.count⟩
  · simpa using hplace
  · exact ⟨[], by simp, .nil⟩

/-- A nonterminal that was not read before is allocated and stored before its successors are read. -/
theorem Ready.first (h : T.Ready seen (T.record a ++ bytes) s) (hinner : T.succs a ≠ []) (hnew : a ∉ seen) :
    ∃ s₁, T.Ready (seen ++ [a]) bytes s₁ ∧ s.nodes.length < s₁.nodes.length ∧
      ∀ found rest s', T.SuccsRead (seen ++ [a]) found rest (T.succs a) s.nodes.length 0 s₁ s' →
        T.NodeRead seen (a :: found) rest a s.nodes.length s s' := by
  obtain ⟨r, hfields, hahead⟩ := T.readFields_record h.reader
  have hnone := h.fresh a hinner hnew
  have hindex := T.mapIndex_lt hinner
  have hpos := List.length_pos_iff.mpr hinner
  refine ⟨(({ s with reader := r } : ReadState).alloc (T.newNode a)).store (T.mapIndex a) (T.mapId a) s.nodes.length,
    ?_, by simp [ReadState.alloc, ReadState.store], ?_⟩
  · constructor
    · exact hahead
    · simp [ReadState.alloc, ReadState.store, h.length]
    · intro b hb hnot
      have hne : ¬(T.mapIndex b = T.mapIndex a ∧ T.mapId b = T.mapId a) := fun ⟨hi, hid⟩ =>
        hnot (by simp [T.eq_of_mapIndex hb hinner hi hid])
      have hfresh := h.fresh b hb fun hmem => hnot (List.mem_append_left _ hmem)
      simp only [ReadState.alloc, ReadState.store]
      by_cases hi : T.mapIndex b = T.mapIndex a
      · have hid : T.mapId b ≠ T.mapId a := fun hid => hne ⟨hi, hid⟩
        rw [hi, Function.update_self, Function.update_of_ne hid, ← hi]
        exact hfresh
      · rw [Function.update_of_ne hi]
        exact hfresh
    · intro b hb hmem
      simp only [ReadState.alloc, ReadState.store]
      by_cases heq : b = a
      · subst heq
        exact ⟨s.nodes.length, by simp, by simp [h.length]⟩
      · obtain ⟨k, hk, hplace⟩ := h.known b hb (by simpa [heq] using hmem)
        refine ⟨k, ?_, getElem?_append_some hplace⟩
        by_cases hi : T.mapIndex b = T.mapIndex a
        · have hid : T.mapId b ≠ T.mapId a := fun hid => heq (T.eq_of_mapIndex hb hinner hi hid)
          rw [hi, Function.update_self, Function.update_of_ne hid, ← hi]
          exact hk
        · rw [Function.update_of_ne hi]
          exact hk
    · have hfalse : (T.succs a).isEmpty = false := by simpa using hinner
      simp [ReadState.alloc, ReadState.store, h.count, terminalCount, List.countP_append, hfalse]
  · intro found rest s' hsuccs
    obtain ⟨depth₀, hruns⟩ := hsuccs.runs
    obtain ⟨ks, objs, hnodes, hks, hobjs⟩ := hsuccs.nodes
    have horder : seen ++ [a] ++ found = seen ++ a :: found := by simp
    have hready := hsuccs.ready
    rw [horder] at hready hks hobjs
    unfold mapIndex mapId NodeHeader.street at *
    constructor
    · refine ⟨depth₀ + 1, fun depth hdepth => ?_⟩
      obtain ⟨depth, rfl⟩ := Nat.exists_eq_add_of_le' (Nat.le_of_add_left_le hdepth)
      have hrun := hruns depth (by omega)
      rw [ActionTree.read, hfields]
      simp only [fields, Option.bind_some, hpos, if_true, hnone, not_le.mpr hindex, ge_iff_le, if_false]
      unfold newNode at hrun
      rw [hrun, Option.map_some]
    · exact hready
    · simp [h.length]
    · refine ⟨(T.newNode a).setSuccs 0 ks :: objs, ?_, .cons ⟨ks, hks, ?_⟩ hobjs⟩
      · rw [hnodes]
        simp only [ReadState.alloc, ReadState.store]
        rw [modify_length]
        simp
      · have hlength := hks.length_eq
        exact Node.setSuccs_eq [] rfl (by simp [newNode, Node.new, hlength])

theorem SuccsRead.cons (hnode : node < s.nodes.length) (hfirst : T.NodeRead seen found₁ bytes a k s s₁)
    (hrest : T.SuccsRead (seen ++ found₁) found₂ rest pending node (i + 1) (s₁.setIthSucc node i k) s₂) :
    T.SuccsRead seen (found₁ ++ found₂) rest (a :: pending) node i s s₂ := by
  obtain ⟨depth₁, hrun₁⟩ := hfirst.runs
  obtain ⟨depth₂, hrun₂⟩ := hrest.runs
  obtain ⟨objs₁, hnodes₁, hobjs₁⟩ := hfirst.nodes
  obtain ⟨ks, objs₂, hnodes₂, hks, hobjs₂⟩ := hrest.nodes
  have horder : seen ++ found₁ ++ found₂ = seen ++ (found₁ ++ found₂) := List.append_assoc _ _ _
  have hready := hrest.ready
  constructor
  · refine ⟨depth₁ + depth₂, fun depth hdepth => ?_⟩
    rw [List.length_cons, readSuccs, hrun₁ depth (by omega)]
    exact hrun₂ depth (by omega)
  · rw [← horder]
    exact hready
  · refine ⟨k :: ks, objs₁ ++ objs₂, ?_, ?_, ?_⟩
    · rw [hnodes₂]
      simp only [ReadState.setIthSucc]
      rw [List.modify_modify_eq, hnodes₁, modify_append _ hnode, List.append_assoc]
      rfl
    · rw [← horder]
      exact .cons (getElem?_append_some hfirst.place) hks
    · rw [← horder]
      exact List.rel_append (hobjs₁.imp fun b n hn => hn.append found₂) hobjs₂

theorem NodeRead.node_lt (hfirst : T.NodeRead seen found bytes a k s s₁) (hnode : node < s.nodes.length) :
    node < (s₁.setIthSucc node i k).nodes.length := by
  obtain ⟨objs, hnodes, -⟩ := hfirst.nodes
  simp only [ReadState.setIthSucc, hnodes, List.length_modify, List.length_append]
  omega

/-- `Read` follows the walk that wrote its bytes. -/
theorem Ready.succsRead (hwalk : PreorderWalk T.succs seen pending found visits) :
    ∀ {s rest node i}, T.Ready seen (visits.flatMap T.record ++ rest) s → node < s.nodes.length →
      ∃ s', T.SuccsRead seen found rest pending node i s s' := by
  induction hwalk with
  | done =>
    intro s rest node i h hnode
    refine ⟨s, ⟨0, fun depth _ => rfl⟩, ?_, [], [], ?_, .nil, .nil⟩
    · simpa using h
    · simp only [List.append_nil]
      exact (List.modify_id _ _).symm
  | leaf hleaf hrest ih =>
    intro s rest node i h hnode
    rw [List.flatMap_cons, List.append_assoc] at h
    obtain ⟨k, s₁, hfirst⟩ := h.leaf hleaf
    obtain ⟨s₂, hsecond⟩ := ih (hfirst.ready.setIthSucc node i k) (hfirst.node_lt hnode)
    exact ⟨s₂, SuccsRead.cons hnode hfirst hsecond⟩
  | @again seen a pending found visits hinner hseen hrest ih =>
    intro s rest node i h hnode
    rw [List.flatMap_cons, List.append_assoc] at h
    obtain ⟨k, s₁, hfirst⟩ := h.again hinner hseen
    have hready := hfirst.ready
    rw [List.append_nil] at hready
    obtain ⟨s₂, hsecond⟩ := ih (hready.setIthSucc node i k) (hfirst.node_lt hnode)
    refine ⟨s₂, SuccsRead.cons hnode hfirst ?_⟩
    rw [List.append_nil]
    exact hsecond
  | first hinner hnew hsuccs hrest ih₁ ih₂ =>
    intro s rest node i h hnode
    rw [List.flatMap_cons, List.flatMap_append, List.append_assoc, List.append_assoc] at h
    obtain ⟨s₀, hready, hlength, hread⟩ := h.first hinner hnew
    obtain ⟨s₁, hloop⟩ := ih₁ hready hlength
    have hfirst := hread _ _ _ hloop
    obtain ⟨s₂, hsecond⟩ := ih₂ (hfirst.ready.setIthSucc node i s.nodes.length) (hfirst.node_lt hnode)
    exact ⟨s₂, SuccsRead.cons hnode hfirst hsecond⟩

/-- `Read` on the record of a node alone. -/
theorem Ready.nodeRead (hwalk : PreorderWalk T.succs seen [a] found visits)
    (h : T.Ready seen (visits.flatMap T.record ++ rest) s) : ∃ k s', T.NodeRead seen found rest a k s s' := by
  cases hwalk with
  | leaf hleaf hrest =>
    cases hrest
    rw [List.flatMap_singleton] at h
    exact h.leaf hleaf
  | again hinner hseen hrest =>
    cases hrest
    rw [List.flatMap_singleton] at h
    exact h.again hinner hseen
  | first hinner hnew hsuccs hrest =>
    cases hrest
    rw [List.append_nil, List.flatMap_cons, List.append_assoc] at h
    obtain ⟨s₀, hready, hlength, hread⟩ := h.first hinner hnew
    obtain ⟨s₁, hloop⟩ := hready.succsRead hsuccs hlength
    rw [List.append_nil]
    exact ⟨_, s₁, hread _ _ _ hloop⟩

end BettingDag

end MasterAI
