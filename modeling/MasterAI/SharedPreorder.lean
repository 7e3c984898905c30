import Mathlib.Data.List.Count
import Mathlib.Data.List.Flatten
import Mathlib.Logic.Relation
import Mathlib.Order.WellFounded

namespace MasterAI

variable {α : Type*}

/-- A depth-first walk over a graph that goes into an inner node at its first visit alone. `found` are the
nodes that it finds, in order, where every visit of a leaf finds a node of its own, and `visits` are all
its visits. -/
inductive PreorderWalk (succs : α → List α) : List α → List α → List α → List α → Prop
  | done {seen} : PreorderWalk succs seen [] [] []
  | leaf {seen a rest found visits} (hleaf : succs a = []) (hrest : PreorderWalk succs (seen ++ [a]) rest found visits) :
      PreorderWalk succs seen (a :: rest) (a :: found) (a :: visits)
  | again {seen a rest found visits} (hinner : succs a ≠ []) (hseen : a ∈ seen)
      (hrest : PreorderWalk succs seen rest found visits) : PreorderWalk succs seen (a :: rest) found (a :: visits)
  | first {seen a rest found₁ found₂ visits₁ visits₂} (hinner : succs a ≠ []) (hnew : a ∉ seen)
      (hsuccs : PreorderWalk succs (seen ++ [a]) (succs a) found₁ visits₁)
      (hrest : PreorderWalk succs (seen ++ a :: found₁) rest found₂ visits₂) :
      PreorderWalk succs seen (a :: rest) (a :: (found₁ ++ found₂)) (a :: (visits₁ ++ visits₂))

namespace PreorderWalk

variable {succs : α → List α} {seen pending found visits order : List α} {root a t : α}

theorem exists_walk (hacyclic : WellFounded fun b a => b ∈ succs a) (pending : List α) :
    ∀ seen, ∃ found visits, PreorderWalk succs seen pending found visits := by
  have hone : ∀ a seen, ∃ found visits, ∀ rest found' visits', PreorderWalk succs (seen ++ found) rest found' visits' →
      PreorderWalk succs seen (a :: rest) (found ++ found') (visits ++ visits') := by
    intro a
    induction a using hacyclic.induction with
    | _ a ih =>
      intro seen
      by_cases hleaf : succs a = []
      · exact ⟨[a], [a], fun rest found' visits' hrest => leaf hleaf hrest⟩
      by_cases hseen : a ∈ seen
      · refine ⟨[], [a], fun rest found' visits' hrest => again hleaf hseen ?_⟩
        simpa using hrest
      have hall : ∀ bs ⊆ succs a, ∀ seen, ∃ found visits, PreorderWalk succs seen bs found visits := by
        intro bs
        induction bs with
        | nil => exact fun _ seen => ⟨[], [], done⟩
        | cons b bs ihbs =>
          intro hbs seen
          obtain ⟨hb, hbs⟩ := List.cons_subset.mp hbs
          obtain ⟨found, visits, hfirst⟩ := ih b hb seen
          obtain ⟨found', visits', hrest⟩ := ihbs hbs (seen ++ found)
          exact ⟨_, _, hfirst _ _ _ hrest⟩
      obtain ⟨found, visits, hsuccs⟩ := hall (succs a) (List.Subset.refl _) (seen ++ [a])
      exact ⟨a :: found, a :: visits, fun rest found' visits' hrest => first hleaf hseen hsuccs hrest⟩
  induction pending with
  | nil => exact fun seen => ⟨[], [], done⟩
  | cons a rest ih =>
    intro seen
    obtain ⟨found, visits, hfirst⟩ := hone a seen
    obtain ⟨found', visits', hrest⟩ := ih (seen ++ found)
    exact ⟨_, _, hfirst _ _ _ hrest⟩

theorem pending_subset (h : PreorderWalk succs seen pending found visits) : pending ⊆ seen ++ found := by
  induction h with
  | done => simp
  | leaf hleaf hrest ih =>
    refine List.cons_subset.mpr ⟨by simp, ?_⟩
    simpa using ih
  | again hinner hseen hrest ih => exact List.cons_subset.mpr ⟨List.mem_append_left _ hseen, ih⟩
  | first hinner hnew hsuccs hrest ih₁ ih₂ =>
    refine List.cons_subset.mpr ⟨by simp, ?_⟩
    simpa using ih₂

/-- With a node the walk finds its successors. -/
theorem closed (h : PreorderWalk succs seen pending found visits) : ∀ a ∈ found, succs a ⊆ seen ++ found := by
  induction h with
  | done => simp
  | leaf hleaf hrest ih =>
    refine List.forall_mem_cons.mpr ⟨by simp [hleaf], fun b hb => ?_⟩
    simpa using ih b hb
  | again hinner hseen hrest ih => exact ih
  | @first seen a rest found₁ found₂ visits₁ visits₂ hinner hnew hsuccs hrest ih₁ ih₂ =>
    have hsub : seen ++ [a] ++ found₁ ⊆ seen ++ a :: (found₁ ++ found₂) := by
      intro c hc
      simp only [List.mem_append, List.mem_cons, List.not_mem_nil, or_false] at hc ⊢
      tauto
    refine List.forall_mem_cons.mpr ⟨List.Subset.trans hsuccs.pending_subset hsub, fun b hb => ?_⟩
    rcases List.mem_append.mp hb with hb | hb
    · exact List.Subset.trans (ih₁ b hb) hsub
    · simpa using ih₂ b hb

/-- The walk finds every node that can be reached. -/
theorem mem_found (h : PreorderWalk succs [] [root] order visits)
    (hreach : Relation.ReflTransGen (fun a b => b ∈ succs a) root a) : a ∈ order := by
  induction hreach with
  | refl => simpa using h.pending_subset
  | tail _ hstep ih => simpa using h.closed _ ih hstep

theorem of_leaf (h : PreorderWalk succs [] [root] order visits) (hleaf : succs root = []) : order = [root] := by
  cases h with
  | leaf _ hrest =>
    cases hrest
    rfl
  | again hinner _ _ => exact absurd hleaf hinner
  | first hinner _ _ _ => exact absurd hleaf hinner

variable [DecidableEq α]

/-- The walk finds an inner node once. -/
theorem count_inner (h : PreorderWalk succs seen pending found visits) (hinner : succs a ≠ []) :
    found.count a ≤ 1 ∧ (a ∈ seen → found.count a = 0) := by
  induction h with
  | done => simp
  | @leaf seen b rest found visits hleaf hrest ih =>
    have hne : b ≠ a := fun heq => hinner (heq ▸ hleaf)
    rw [List.count_cons_of_ne hne]
    exact ⟨ih.1, fun hmem => ih.2 (List.mem_append_left _ hmem)⟩
  | again _ hseen hrest ih => exact ih
  | @first seen b rest found₁ found₂ visits₁ visits₂ hb hnew hsuccs hrest ih₁ ih₂ =>
    by_cases heq : b = a
    · subst heq
      have h₁ := ih₁.2 (by simp)
      have h₂ := ih₂.2 (by simp)
      rw [List.count_cons_self, List.count_append]
      exact ⟨by omega, fun hmem => absurd hmem hnew⟩
    · rw [List.count_cons_of_ne heq, List.count_append]
      by_cases hmem : a ∈ found₁
      · have h₂ := ih₂.2 (by simp [hmem])
        refine ⟨by omega, fun hseen => ?_⟩
        have h₁ := ih₁.2 (List.mem_append_left _ hseen)
        omega
      · have h₁ := List.count_eq_zero.mpr hmem
        refine ⟨by omega, fun hseen => ?_⟩
        have h₂ := ih₂.2 (List.mem_append_left _ hseen)
        omega

/-- The walk finds a leaf as often as it comes to it. -/
theorem count_leaf (h : PreorderWalk succs seen pending found visits) (hleaf : succs t = []) :
    found.count t = pending.count t + (found.flatMap succs).count t := by
  induction h with
  | done => rfl
  | leaf hb hrest ih =>
    rw [List.count_cons, List.count_cons, List.flatMap_cons, hb, List.nil_append]
    omega
  | @again seen b rest found visits hb hseen hrest ih =>
    have hne : b ≠ t := fun heq => hb (heq ▸ hleaf)
    rw [List.count_cons_of_ne hne]
    exact ih
  | @first seen b rest found₁ found₂ visits₁ visits₂ hb hnew hsuccs hrest ih₁ ih₂ =>
    have hne : b ≠ t := fun heq => hb (heq ▸ hleaf)
    rw [List.count_cons_of_ne hne, List.count_cons_of_ne hne, List.flatMap_cons, List.flatMap_append]
    simp only [List.count_append]
    omega

/-- A node with at most one edge to it is at most once among the successors of different nodes. -/
theorem count_flatMap_le_one {l : List α} (hinner : ∀ a, succs a ≠ [] → l.count a ≤ 1)
    (hcount : ∀ a, (succs a).count t ≤ 1) (hunique : ∀ a b, t ∈ succs a → t ∈ succs b → a = b) :
    (l.flatMap succs).count t ≤ 1 := by
  induction l with
  | nil => simp
  | cons a l ih =>
    rw [List.flatMap_cons, List.count_append]
    have hcount_a := hcount a
    by_cases hmem : t ∈ succs a
    · have hone := hinner a (List.ne_nil_of_mem hmem)
      rw [List.count_cons_self] at hone
      have hnot : a ∉ l := List.count_eq_zero.mp (by omega)
      have hrest : t ∉ l.flatMap succs := by
        intro hrest
        obtain ⟨b, hb, htb⟩ := List.mem_flatMap.mp hrest
        exact hnot (hunique a b hmem htb ▸ hb)
      have := List.count_eq_zero.mpr hrest
      omega
    · have hzero := List.count_eq_zero.mpr hmem
      have hle := ih fun b hb => le_trans (List.count_le_count_cons) (hinner b hb)
      omega

/-- In a graph whose leaves have at most one edge each, the walk finds every node once. -/
theorem nodup (h : PreorderWalk succs [] [root] order visits)
    (hleaf : ∀ t, succs t = [] → (∀ a, (succs a).count t ≤ 1) ∧ ∀ a b, t ∈ succs a → t ∈ succs b → a = b) :
    order.Nodup := by
  by_cases hroot : succs root = []
  · rw [h.of_leaf hroot]
    simp
  rw [List.nodup_iff_count]
  intro t
  by_cases ht : succs t = []
  · have hne : root ≠ t := fun heq => hroot (heq ▸ ht)
    have hle := count_flatMap_le_one (fun a ha => (h.count_inner ha).1) (hleaf t ht).1 (hleaf t ht).2
    rw [h.count_leaf ht, List.count_cons_of_ne hne, List.count_nil, Nat.zero_add]
    exact hle
  · exact (h.count_inner ht).1

end PreorderWalk

end MasterAI
