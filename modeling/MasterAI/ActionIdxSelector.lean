import MasterAI.Binary64
import MasterAI.CandidateScan

namespace MasterAI

/-- The values with their indices in front. -/
def indexed (vals : List Nat) : List (Nat × Nat) := vals.zipIdx.map Prod.swap

def getPureIdx (vals : List Nat) (sumprobFlag : Bool) : Nat :=
  if sumprobFlag then (scanBest (· > ·) (0, 0) (indexed vals)).1 else (vals.findIdx? (· = 0)).getD 0

def maxVal (vals : List Nat) : Nat := vals.foldl (fun m val => if val > m then val else m) 0

/-- `FRMChooseCandidate`; nothing where its threshold is no `unsigned int`. -/
def frmChooseCandidate (vals : List Nat) (sumprobFlag : Bool) (filterTh : Double) : Option (List (Nat × Nat)) :=
  ((Double.ofInt (maxVal vals)).mul filterTh).toUnsignedInt.map fun valTh =>
    (indexed vals).filter fun e => if sumprobFlag then e.2 ≥ valTh else e.2 ≤ valTh

/-- The loop of `ChooseIdxByRm` with the sum so far; nothing where there is no candidate. -/
def chooseIdxFrom (r cum : Double) : List (Nat × Double) → Option Nat
  | [] => none
  | [e] => some e.1
  | e :: next :: rest => if r.lt (cum.add e.2) then some e.1 else chooseIdxFrom r (cum.add e.2) (next :: rest)

def chooseIdxByRm (r : Double) (candidateAction : List (Nat × Double)) : Option Nat :=
  chooseIdxFrom r (.ofInt 0) candidateAction

def chooseIdxByMinReg (candidateAction : List (Nat × Nat)) : Nat :=
  (scanBest (· < ·) (0, 2000000000) candidateAction).1

theorem mem_indexed {vals : List Nat} {e : Nat × Nat} : e ∈ indexed vals ↔ vals[e.1]? = some e.2 := by
  simp only [indexed, List.mem_map, Prod.exists, List.mem_zipIdx_iff_getElem?]
  constructor
  · rintro ⟨val, i, hi, rfl⟩
    exact hi
  · intro h
    exact ⟨e.2, e.1, h, rfl⟩

theorem getPureIdx_lt {vals : List Nat} (hne : vals ≠ []) (sumprobFlag : Bool) :
    getPureIdx vals sumprobFlag < vals.length := by
  have hpos : 0 < vals.length := List.length_pos_iff.mpr hne
  unfold getPureIdx
  split
  · rcases scanBest_mem_or_start (· > ·) (0, 0) (indexed vals) with hstart | hmem
    · rw [hstart]
      exact hpos
    · exact (List.getElem?_eq_some_iff.mp (mem_indexed.mp hmem)).1
  · cases hfind : vals.findIdx? (· = 0) with
    | none => simpa using hpos
    | some i => exact (List.findIdx?_eq_some_iff_findIdx_eq.mp hfind).1

theorem maxVal_append_singleton (vals : List Nat) (val : Nat) :
    maxVal (vals ++ [val]) = if val > maxVal vals then val else maxVal vals := by
  rw [maxVal, List.foldl_append]
  rfl

/-- The greatest value is one of them, or zero where there are none. -/
theorem maxVal_mem_or_zero (vals : List Nat) : maxVal vals ∈ vals ∨ maxVal vals = 0 ∧ ∀ val ∈ vals, val = 0 := by
  induction vals using List.reverseRecOn with
  | nil => exact .inr ⟨rfl, by simp⟩
  | append_singleton vals val ih =>
    rw [maxVal_append_singleton]
    split
    next => exact .inl (by simp)
    next hle =>
      rcases ih with hmem | ⟨hzero, hall⟩
      · exact .inl (List.mem_append_left _ hmem)
      · rw [hzero] at hle ⊢
        refine .inr ⟨rfl, fun x hx => ?_⟩
        rcases List.mem_append.mp hx with hx | hx
        · exact hall x hx
        · rw [List.mem_singleton.mp hx]
          omega

/-- A candidate is an index with its value, which is at least the threshold. -/
theorem mem_frmChooseCandidate {vals : List Nat} {th : Double} {candidates : List (Nat × Nat)}
    (h : frmChooseCandidate vals true th = some candidates) :
    ∃ valTh, ((Double.ofInt (maxVal vals)).mul th).toUnsignedInt = some valTh ∧
      ∀ e : Nat × Nat, e ∈ candidates ↔ vals[e.1]? = some e.2 ∧ valTh ≤ e.2 := by
  obtain ⟨valTh, hth, rfl⟩ := Option.map_eq_some_iff.mp h
  refine ⟨valTh, hth, fun e => ?_⟩
  rw [List.mem_filter, mem_indexed]
  simp

/-- A threshold below one keeps an action of the greatest value. -/
theorem frmChooseCandidate_ne_nil {vals : List Nat} (hne : vals ≠ []) (hfits : maxVal vals < 4294967296) {th : Double}
    (hth : (Double.ofInt 1).le th = false) {candidates : List (Nat × Nat)}
    (h : frmChooseCandidate vals true th = some candidates) : candidates ≠ [] := by
  obtain ⟨valTh, hvalTh, hmem⟩ := mem_frmChooseCandidate h
  have hle : valTh ≤ maxVal vals := (Double.toUnsignedInt_mul_ofInt hfits hth).2 valTh hvalTh
  obtain ⟨i, hi⟩ : ∃ i, vals[i]? = some (maxVal vals) := by
    rcases maxVal_mem_or_zero vals with hmem | ⟨hzero, hall⟩
    · exact List.mem_iff_getElem?.mp hmem
    · obtain ⟨val, rest, rfl⟩ := List.exists_cons_of_ne_nil hne
      exact ⟨0, by rw [hzero, hall val (by simp)]; rfl⟩
  exact List.ne_nil_of_mem ((hmem (i, maxVal vals)).mpr ⟨hi, hle⟩)

theorem frmChooseCandidate_isSome {vals : List Nat} (hfits : maxVal vals < 4294967296) {th : Double}
    (hth : (Double.ofInt 1).le th = false) (b : Bool) :
    (frmChooseCandidate vals b th).isSome ↔ ∃ x, (Double.ofInt (maxVal vals)).mul th = .finite x ∧ -1 < x := by
  rw [frmChooseCandidate, Option.isSome_map]
  exact (Double.toUnsignedInt_mul_ofInt hfits hth).1

/-- Where there are candidates, one of them is chosen. -/
theorem chooseIdxFrom_mem {r : Double} {candidates : List (Nat × Double)} (hne : candidates ≠ []) (cum : Double) :
    ∃ e ∈ candidates, chooseIdxFrom r cum candidates = some e.1 := by
  induction candidates generalizing cum with
  | nil => exact absurd rfl hne
  | cons e rest ih =>
    cases rest with
    | nil => exact ⟨e, by simp, rfl⟩
    | cons next rest =>
      rw [chooseIdxFrom]
      split
      · exact ⟨e, by simp, rfl⟩
      · obtain ⟨e', hmem, hchoose⟩ := ih (by simp) (cum.add e.2)
        exact ⟨e', List.mem_cons_of_mem _ hmem, hchoose⟩

/-- The least regret below the bound decides, the first of equal ones; without one the first action is chosen. -/
theorem chooseIdxByMinReg_spec (candidates : List (Nat × Nat)) :
    (chooseIdxByMinReg candidates = 0 ∧ ∀ e ∈ candidates, 2000000000 ≤ e.2) ∨
      ∃ e, chooseIdxByMinReg candidates = e.1 ∧ FirstBest (· < ·) 2000000000 candidates e := by
  have hweak : ∀ a b c : Nat, a < b → a < c ∨ c < b := by omega
  have hasymm : ∀ a b : Nat, a < b → ¬b < a := by omega
  rcases scanBest_spec hweak hasymm (0, 2000000000) candidates with ⟨hstart, hnone⟩ | hbest
  · refine .inl ⟨by rw [chooseIdxByMinReg, hstart], fun e he => ?_⟩
    have hle := hnone e he
    omega
  · exact .inr ⟨_, rfl, hbest⟩

end MasterAI
