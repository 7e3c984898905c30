import MasterAI.RunGameHashMap

namespace MasterAI

namespace RunGameHashMap

/-- `Get` returns a pointer: the node that holds the session of an id. -/
def getNode (h : RunGameHashMap) (id : Int) (updateTime : Bool) (now : Int) :
    Option (Option Nat × RunGameHashMap) :=
  (h.hash id).bind fun index =>
    (h.search id index).map fun
      | .found _ node =>
        (some node,
          if updateTime then { h with game := Function.update h.game node (setLastTime (h.game node) now) } else h)
      | .absent _ => (none, h)

/-- `IsTimeOut`. An id without a session is late. -/
def isTimeOut (h : RunGameHashMap) (dataTimeout id now : Int) : Option Bool :=
  (h.hash id).bind fun index =>
    (h.search id index).map fun
      | .found _ node => decide (now - (h.game node).lastTime > dataTimeout)
      | .absent _ => true

/-- What a caller of `Get` sees behind the pointer. -/
theorem get_eq_getNode (h : RunGameHashMap) (id : Int) (updateTime : Bool) (now : Int) :
    h.get id updateTime now = (h.getNode id updateTime now).map fun (node, k) => (node.map k.game, k) := by
  unfold get getNode
  cases h.hash id with
  | none => rfl
  | some index =>
    cases hwalk : h.search id index with
    | none => simp [hwalk]
    | some walk => cases walk <;> simp [hwalk]

/-- The node of each id. -/
def Stores (h : RunGameHashMap) (nodes : Int → Option Nat) : Prop :=
  ∃ free used chains, h.Holds free used chains ∧ ∀ id x, nodes id = some x ↔ x ∈ used ∧ (h.game x).robotID = id

section

variable {h k : RunGameHashMap} {nodes : Int → Option Nat} {id now : Int} {x : Nat}

theorem Stores.robotID (hs : h.Stores nodes) (hx : nodes id = some x) : (h.game x).robotID = id := by
  obtain ⟨_, _, _, _, hnodes⟩ := hs
  exact ((hnodes id x).mp hx).2

theorem Stores.node_inj {id' : Int} (hs : h.Stores nodes) (hx : nodes id = some x) (hx' : nodes id' = some x) :
    id = id' :=
  (hs.robotID hx).symm.trans (hs.robotID hx')

theorem Stores.search {b : Nat} (hs : h.Stores nodes) (hb : h.hash id = some b) :
    (∃ pre x, nodes id = some x ∧ h.search id b = some (.found pre x)) ∨
      (nodes id = none ∧ ∃ count, h.search id b = some (.absent count)) := by
  obtain ⟨_, _, _, hh, hnodes⟩ := hs
  rcases hh.search hb with ⟨_, x, _, _, hx, hid, hfound⟩ | ⟨hnone, habsent⟩
  · exact .inl ⟨_, x, (hnodes id x).mpr ⟨hx, hid⟩, hfound⟩
  · refine .inr ⟨Option.eq_none_iff_forall_ne_some.mpr fun x hx => ?_, _, habsent⟩
    obtain ⟨hused, hid⟩ := (hnodes id x).mp hx
    exact hnone x hused hid

/-- A change of sessions that keeps their ids. -/
theorem Stores.withGame (hs : h.Stores nodes) {game : Nat → RunGame}
    (hgame : ∀ x, (game x).robotID = (h.game x).robotID) : Stores { h with game := game } nodes := by
  obtain ⟨free, used, chains, hh, hnodes⟩ := hs
  refine ⟨free, used, chains, hh.withGame hgame, fun id x => ?_⟩
  simp only [hgame]
  exact hnodes id x

theorem Stores.update (hs : h.Stores nodes) {g : RunGame} (hg : g.robotID = (h.game x).robotID) :
    Stores { h with game := Function.update h.game x g } nodes := by
  refine hs.withGame fun y => ?_
  by_cases hy : y = x
  · subst hy
    rw [Function.update_self, hg]
  · rw [Function.update_of_ne hy]

/-- `Get` finds the node of the id, and sets the time of this node only. -/
theorem Stores.getNode {updateTime : Bool} {node : Option Nat} (hs : h.Stores nodes)
    (hget : h.getNode id updateTime now = some (node, k)) :
    node = nodes id ∧ k.Stores nodes ∧ (∀ x, nodes id ≠ some x → k.game x = h.game x) ∧
      ∀ x, nodes id = some x → k.game x = if updateTime then setLastTime (h.game x) now else h.game x := by
  unfold RunGameHashMap.getNode at hget
  obtain ⟨b, hb, hget⟩ := Option.bind_eq_some_iff.mp hget
  rcases hs.search hb with ⟨_, x, hx, hfound⟩ | ⟨hnone, _, habsent⟩
  · rw [hfound, Option.map_some] at hget
    cases hget
    refine ⟨hx.symm, ?_, fun y hy => ?_, fun y hy => ?_⟩
    · split
      · exact hs.update rfl
      · exact hs
    · have hyx : y ≠ x := by
        rintro rfl
        exact hy hx
      split
      · exact Function.update_of_ne hyx _ _
      · rfl
    · obtain rfl : x = y := Option.some.inj (hx.symm.trans hy)
      split
      · exact Function.update_self _ _ _
      · rfl
  · rw [habsent, Option.map_some] at hget
    cases hget
    refine ⟨hnone.symm, hs, fun _ _ => rfl, fun y hy => ?_⟩
    rw [hnone] at hy
    cases hy

theorem Stores.isTimeOut {dataTimeout : Int} {late : Bool} (hs : h.Stores nodes)
    (hlate : h.isTimeOut dataTimeout id now = some late) :
    late = (((nodes id).map h.game).map fun g => decide (now - g.lastTime > dataTimeout)).getD true := by
  unfold RunGameHashMap.isTimeOut at hlate
  obtain ⟨b, hb, hlate⟩ := Option.bind_eq_some_iff.mp hlate
  rcases hs.search hb with ⟨_, x, hx, hfound⟩ | ⟨hnone, _, habsent⟩
  · rw [hfound, Option.map_some] at hlate
    rw [hx]
    exact (Option.some.inj hlate).symm
  · rw [habsent, Option.map_some] at hlate
    rw [hnone]
    exact (Option.some.inj hlate).symm

/-- `Add` leaves the map as it is, or puts the session of a new id into a node that was free. It fails for a new id
only where no node is free. -/
theorem Stores.add {g : RunGame} {code : Int} (hs : h.Stores nodes) (hadd : h.add g now = some (code, k)) :
    (code ≠ 0 ∧ k = h ∧
        (g.robotID ≠ 0 → nodes g.robotID = none → ∀ x < h.totalSize, ∃ id, nodes id = some x)) ∨
      (code = 0 ∧ nodes g.robotID = none ∧ g.robotID ≠ 0 ∧
        ∃ x, (∀ id, nodes id ≠ some x) ∧ k.Stores (Function.update nodes g.robotID (some x)) ∧
          k.game = Function.update h.game x (setLastTime g now)) := by
  unfold RunGameHashMap.add at hadd
  split at hadd
  next hzero =>
    cases hadd
    exact .inl ⟨by decide, rfl, fun hne => absurd hzero hne⟩
  next hne =>
    obtain ⟨b, hb, hadd⟩ := Option.bind_eq_some_iff.mp hadd
    rcases hs.search hb with ⟨_, x, hx, hfound⟩ | ⟨hnone, count, habsent⟩
    · rw [hfound, Option.map_some] at hadd
      cases hadd
      refine .inl ⟨by decide, rfl, fun _ hnone => ?_⟩
      rw [hx] at hnone
      cases hnone
    · rw [habsent, Option.map_some] at hadd
      dsimp only at hadd
      rw [if_neg (by omega)] at hadd
      obtain ⟨free, used, chains, hh, hnodes⟩ := hs
      cases free with
      | nil =>
        have hlst : h.lstFree = none := hh.free_linked
        simp only [popNode, hlst, Option.map_none] at hadd
        cases hadd
        refine .inl ⟨by decide, rfl, fun _ _ x hx => ⟨(h.game x).robotID, (hnodes _ _).mpr ⟨?_, rfl⟩⟩⟩
        exact hh.nodes.mem_iff.mpr (List.mem_range.mpr hx)
      | cons y free =>
        have hlst : h.lstFree = some y := hh.free_linked.1
        have hy : y ∉ used := hh.free_used (x := y) (by simp)
        have hout (x : Nat) (hx : x ∈ used) : x ≠ y := by
          rintro rfl
          exact hy hx
        simp only [popNode, hlst, Option.map_some, Function.update_idem] at hadd
        cases hadd
        have hnew (x : Nat) (hx : x ∈ used) : (h.game x).robotID ≠ g.robotID := fun hid => by
          rw [(hnodes _ x).mpr ⟨hx, hid⟩] at hnone
          cases hnone
        refine .inr ⟨rfl, hnone, hne, y, fun id hid => hy ((hnodes id y).mp hid).1, ?_, rfl⟩
        refine ⟨_, _, _, hh.insert (g := setLastTime g now) hb hnew, fun id x => ?_⟩
        dsimp only
        rw [List.mem_cons]
        by_cases hid : id = g.robotID
        · subst hid
          rw [Function.update_self]
          constructor
          · intro hx
            obtain rfl : y = x := Option.some.inj hx
            rw [Function.update_self]
            exact ⟨.inl rfl, rfl⟩
          · rintro ⟨rfl | hx, hid⟩
            · rfl
            · rw [Function.update_of_ne (hout x hx)] at hid
              exact absurd hid (hnew x hx)
        · rw [Function.update_of_ne hid, hnodes]
          constructor
          · rintro ⟨hx, rfl⟩
            rw [Function.update_of_ne (hout x hx)]
            exact ⟨.inr hx, rfl⟩
          · rintro ⟨rfl | hx, hid'⟩
            · rw [Function.update_self] at hid'
              exact absurd hid'.symm hid
            · rw [Function.update_of_ne (hout x hx)] at hid'
              exact ⟨hx, hid'⟩

theorem Stores.del {code : Int} (hs : h.Stores nodes) (hdel : h.del id = some (code, k)) :
    k.Stores (Function.update nodes id none) ∧ ∀ x, nodes id ≠ some x → k.game x = h.game x := by
  unfold RunGameHashMap.del at hdel
  obtain ⟨b, hb, hdel⟩ := Option.bind_eq_some_iff.mp hdel
  obtain ⟨free, used, chains, hh, hnodes⟩ := hs
  rcases hh.search hb with ⟨before, x, after, hchain, hx, rfl, hfound⟩ | ⟨hnone, habsent⟩
  · rw [hfound, Option.map_some] at hdel
    cases hdel
    have hremoved := h.removed_unlink b x before.getLast?
    have hused : used.Nodup := (List.nodup_append.mp hh.nodup).2.1
    have hgame (y : Nat) (hy : y ≠ x) := (congrFun hremoved.game y).trans (Function.update_of_ne hy _ _)
    constructor
    · refine ⟨_, _, _, hh.removed (hash_lt hb) hchain hx hremoved, fun id y => ?_⟩
      rw [hused.mem_erase_iff]
      by_cases hid : id = (h.game x).robotID
      · subst hid
        rw [Function.update_self]
        refine ⟨nofun, fun ⟨⟨hyx, hy⟩, hid⟩ => ?_⟩
        rw [hgame y hyx] at hid
        exact absurd (hh.id_inj hy hx hid) hyx
      · rw [Function.update_of_ne hid, hnodes]
        constructor
        · rintro ⟨hy, rfl⟩
          have hyx : y ≠ x := by
            rintro rfl
            exact hid rfl
          rw [hgame y hyx]
          exact ⟨⟨hyx, hy⟩, rfl⟩
        · rintro ⟨⟨hyx, hy⟩, hid'⟩
          rw [hgame y hyx] at hid'
          exact ⟨hy, hid'⟩
    · intro y hy
      refine hgame y ?_
      rintro rfl
      exact hy ((hnodes _ y).mpr ⟨hx, rfl⟩)
  · rw [habsent, Option.map_some] at hdel
    cases hdel
    have hnone' : nodes id = none := Option.eq_none_iff_forall_ne_some.mpr fun x hx =>
      hnone x ((hnodes id x).mp hx).1 ((hnodes id x).mp hx).2
    refine ⟨⟨free, used, chains, hh, fun i x => ?_⟩, fun _ _ => rfl⟩
    rw [← hnone', Function.update_eq_self]
    exact hnodes i x

theorem stores_init {size buckets : Nat} (hstart : HashMapStart size buckets h) : h.Stores fun _ => none := by
  obtain ⟨free, hh⟩ := init_holds hstart
  exact ⟨free, [], _, hh, by simp⟩

end

end RunGameHashMap

end MasterAI
