import Mathlib.Data.List.Perm.Lattice
import Mathlib.Data.List.Range
import MasterAI.ActionTreeWalk

namespace MasterAI

open ActionTree

namespace BettingDag

variable {numPlayers maxStreet : Nat} {α : Type*} [DecidableEq α] {T : BettingDag numPlayers maxStreet α}
  {order visits : List α} {place : α → Nat} {file : List UInt8} {a b : α} {s : ReadState}

/-- A node with its successors where they are in memory. -/
def placed (T : BettingDag numPlayers maxStreet α) (place : α → Nat) (a : α) : ActionTree.Node :=
  { T.newNode a with succs := (T.succs a).map fun b => some (place b) }

/-- The nodes in memory are those of the tree, each once. -/
structure Loaded (T : BettingDag numPlayers maxStreet α) (place : α → Nat) (s : ReadState) : Prop where
  nodes : ∀ a, s.nodes[place a]? = some (T.placed place a)
  bijective : Set.BijOn place Set.univ (Set.Iio s.nodes.length)
  numTerminals : s.numTerminals = wrapInt32 T.numTerminals

theorem idxOf_of_getElem? {k : Nat} (hnodup : order.Nodup) (h : order[k]? = some a) : order.idxOf a = k := by
  obtain ⟨hk, rfl⟩ := List.getElem?_eq_some_iff.mp h
  exact hnodup.idxOf_getElem k hk

theorem Stored.placed {n : ActionTree.Node} (hnodup : order.Nodup) (h : T.Stored order a n) :
    n = T.placed (fun b => order.idxOf b) a := by
  obtain ⟨ks, hks, rfl⟩ := h
  have hmap : ∀ {ks bs}, List.Forall₂ (fun k b => order[k]? = some b) ks bs →
      ks.map some = bs.map fun b => some (order.idxOf b) := by
    intro ks bs h
    induction h with
    | nil => rfl
    | cons hk _ ih => rw [List.map_cons, List.map_cons, ih, idxOf_of_getElem? hnodup hk]
  rw [BettingDag.placed, hmap hks]

/-- The terminals of the tree are as many as their ids. -/
theorem terminalCount_order (hnodup : order.Nodup) (hall : ∀ a, a ∈ order) : T.terminalCount order = T.numTerminals := by
  have hleaf : ∀ a, (T.succs a).isEmpty = true ↔ a ∈ {t | T.succs t = []} := fun a => List.isEmpty_iff
  have hperm : ((order.filter fun a => (T.succs a).isEmpty).map fun t => (T.header t).id).Perm
      (List.range T.numTerminals) := by
    refine (List.perm_ext_iff_of_nodup ?_ List.nodup_range).mpr fun k => ?_
    · refine (hnodup.filter _).map_on fun a ha b hb heq => ?_
      exact T.numbered.injOn ((hleaf a).mp (List.mem_filter.mp ha).2) ((hleaf b).mp (List.mem_filter.mp hb).2) heq
    · rw [List.mem_range]
      constructor
      · intro hk
        obtain ⟨a, ha, rfl⟩ := List.mem_map.mp hk
        exact T.numbered.mapsTo ((hleaf a).mp (List.mem_filter.mp ha).2)
      · intro hk
        obtain ⟨a, ha, rfl⟩ := T.numbered.surjOn hk
        exact List.mem_map.mpr ⟨a, List.mem_filter.mpr ⟨hall a, (hleaf a).mpr ha⟩, rfl⟩
  have hlength := hperm.length_eq
  rwa [List.length_map, List.length_range, ← List.countP_eq_length_filter] at hlength

/-- `Read` puts the tree into memory. -/
theorem exists_loaded (hfile : T.IsFile file) (memory : Nat → UInt8) :
    ∃ reader place s depth₀, Reader.opened file memory = some reader ∧ T.Loaded place s ∧
      ∀ depth ≥ depth₀, read numPlayers maxStreet depth ⟨reader, fun _ _ => none, [], 0⟩ = some (place T.root, s) := by
  obtain ⟨order, visits, hwalk, rfl⟩ := hfile
  obtain ⟨reader, hopened, hahead⟩ := ahead_opened (visits.flatMap T.record) memory
  have hready : T.Ready [] (visits.flatMap T.record ++ []) ⟨reader, fun _ _ => none, [], 0⟩ := by
    have hzero : FitsInt32 0 := by
      unfold FitsInt32 int32Max
      omega
    refine ⟨?_, rfl, fun _ _ _ => rfl, fun a _ hmem => absurd hmem List.not_mem_nil, (wrapInt32_eq hzero).symm⟩
    rw [List.append_nil]
    exact hahead
  obtain ⟨k, s, hread⟩ := hready.nodeRead hwalk
  obtain ⟨depth₀, hruns⟩ := hread.runs
  obtain ⟨objs, hnodes, hobjs⟩ := hread.nodes
  have hplace := hread.place
  have hcount := hread.ready.count
  simp only [List.nil_append] at hnodes hobjs hplace hcount
  have hnodup := hwalk.nodup T.oneEdge
  have hall : ∀ a, a ∈ order := fun a => hwalk.mem_found (T.connected a)
  have hlength : s.nodes.length = order.length := by rw [hnodes, ← hobjs.length_eq]
  refine ⟨reader, fun a => order.idxOf a, s, depth₀, hopened, ⟨fun a => ?_, ⟨?_, ?_, ?_⟩, ?_⟩, ?_⟩
  · obtain ⟨hk, ha⟩ := List.getElem?_eq_some_iff.mp (List.getElem?_idxOf (hall a))
    have hk' : order.idxOf a < objs.length := by
      rw [← hobjs.length_eq]
      exact hk
    have hobj := Stored.placed hnodup (hobjs.get hk hk')
    rw [List.get_eq_getElem, List.get_eq_getElem, ha] at hobj
    rw [hnodes, List.getElem?_eq_getElem hk', hobj]
  · intro a _
    rw [Set.mem_Iio, hlength]
    exact List.idxOf_lt_length_iff.mpr (hall a)
  · intro a _ b _ heq
    exact (List.idxOf_inj (hall a)).mp heq
  · intro k hk
    rw [Set.mem_Iio, hlength] at hk
    exact ⟨order[k], trivial, hnodup.idxOf_getElem k hk⟩
  · rw [hcount, terminalCount_order hnodup hall]
  · intro depth hdepth
    rw [hruns depth hdepth]
    dsimp only
    rw [idxOf_of_getElem? hnodup hplace]

end BettingDag

end MasterAI
