import MasterAI.ActionTreeLoaded

namespace MasterAI

open ActionTree

variable {σ : Type*}

theorem foldlM_getElem? {β : Type*} (l : List β) (g : σ → β → Option σ) (x : σ) :
    (List.range l.length).foldlM (fun x i => (l[i]?).bind fun k => g x k) x = l.foldlM g x := by
  have hmap : (List.range l.length).map (fun i => l[i]?) = l.map some := by
    refine List.ext_getElem (by simp) fun i h₁ h₂ => ?_
    have hi : i < l.length := by simpa using h₂
    simp [hi]
  calc (List.range l.length).foldlM (fun x i => (l[i]?).bind fun k => g x k) x
      = ((List.range l.length).map fun i => l[i]?).foldlM (fun x o => o.bind fun k => g x k) x := by
        rw [List.foldlM_map]
    _ = l.foldlM g x := by
        rw [hmap, List.foldlM_map]
        rfl

theorem foldlM_invariant {ι : Type*} {P : σ → Prop} {f : σ → ι → Option σ}
    (hf : ∀ x i x', P x → f x i = some x' → P x') {l : List ι} {x x' : σ} (hx : P x) (h : l.foldlM f x = some x') :
    P x' := by
  induction l generalizing x with
  | nil =>
    cases h
    exact hx
  | cons i l ih =>
    rw [List.foldlM_cons] at h
    obtain ⟨y, hy, hrest⟩ := Option.bind_eq_some_iff.mp h
    exact ih (hf x i y hx hy) hrest

theorem wrapInt16_eq {n : Nat} (h : n < 32768) : wrapInt16 n = n := by
  simp only [wrapInt16, Int.bmod_def]
  omega

theorem wrapInt16_lt (x : Int) : wrapInt16 x < 32768 := by
  simp only [wrapInt16, Int.bmod_def]
  omega

namespace BettingDag

variable {numPlayers maxStreet : Nat} {α : Type*} [DecidableEq α] {T : BettingDag numPlayers maxStreet α}
  {place : α → Nat} {nodes : List ActionTree.Node} {a b : α} {x : σ} {s : ReadState}

theorem placed_ithSucc (T : BettingDag numPlayers maxStreet α) (place : α → Nat) (a : α) (i : Nat) :
    (T.placed place a).ithSucc i = ((T.succs a).map place)[i]? := by
  simp only [placed, Node.ithSucc, List.getElem?_map]
  cases (T.succs a)[i]? <;> rfl

theorem placed_numSuccs (place : α → Nat) (hfits : (T.succs a).length < 32768) :
    (T.placed place a).numSuccs = (T.succs a).length := by
  simp only [placed, newNode, Node.new]
  exact wrapInt16_eq hfits

theorem placed_terminal (place : α → Nat) (hfits : (T.succs a).length < 32768) :
    (T.placed place a).terminal = true ↔ T.succs a = [] := by
  rw [Node.terminal, placed_numSuccs place hfits]
  simp

/-- A recursion over the nodes in memory that does one thing on each node before it goes on to the
successors. -/
def Visits (nodes : List ActionTree.Node) (step : Nat → ActionTree.Node → σ → Option σ) (f : Nat → Nat → σ → Option σ) :
    Prop :=
  ∀ depth k n x, nodes[k]? = some n → f (depth + 1) k x =
    (step k n x).bind fun x =>
      if n.terminal then some x
      else (List.range n.numSuccs.toNat).foldlM (fun x i => (n.ithSucc i).bind fun succ => f depth succ x) x

variable {step : Nat → ActionTree.Node → σ → Option σ} {f : Nat → Nat → σ → Option σ} {P : σ → Prop} {Done : α → σ → Prop}

theorem Visits.placed (hf : Visits nodes step f) (hfits : ∀ a, (T.succs a).length < 32768)
    (hnodes : ∀ a, nodes[place a]? = some (T.placed place a)) (depth : Nat) (a : α) (x : σ) :
    f (depth + 1) (place a) x =
      (step (place a) (T.placed place a) x).bind fun x => (T.succs a).foldlM (fun x b => f depth (place b) x) x := by
  refine (hf depth (place a) (T.placed place a) x (hnodes a)).trans (congrArg _ (funext fun x => ?_))
  by_cases hleaf : T.succs a = []
  · rw [if_pos ((placed_terminal place (hfits a)).mpr hleaf), hleaf]
    rfl
  · rw [if_neg fun hterminal => hleaf ((placed_terminal place (hfits a)).mp hterminal), placed_numSuccs place (hfits a)]
    have hloop := foldlM_getElem? ((T.succs a).map place) (fun x k => f depth k x) x
    rw [List.foldlM_map, List.length_map] at hloop
    simpa only [placed_ithSucc, Int.toNat_natCast] using hloop

/-- What every step brings about, where no step undoes it, holds of all nodes below in the end. -/
theorem Visits.all (hf : Visits nodes step f) (hfits : ∀ a, (T.succs a).length < 32768)
    (hnodes : ∀ a, nodes[place a]? = some (T.placed place a))
    (hstep : ∀ a x, P x → ∃ x', step (place a) (T.placed place a) x = some x' ∧ P x' ∧ Done a x' ∧
      ∀ b, Done b x → Done b x') (a : α) :
    ∃ depth₀, ∀ x, P x → ∃ x', (∀ depth ≥ depth₀, f depth (place a) x = some x') ∧ P x' ∧
      (∀ b, Relation.ReflTransGen (fun a b => b ∈ T.succs a) a b → Done b x') ∧ ∀ b, Done b x → Done b x' := by
  induction a using T.acyclic.induction with
  | _ a ih =>
    have hsuccs : ∀ bs ⊆ T.succs a, ∃ depth₀, ∀ x, P x → ∃ x',
        (∀ depth ≥ depth₀, bs.foldlM (fun x b => f depth (place b) x) x = some x') ∧ P x' ∧
          (∀ b ∈ bs, ∀ c, Relation.ReflTransGen (fun a b => b ∈ T.succs a) b c → Done c x') ∧
          ∀ b, Done b x → Done b x' := by
      intro bs
      induction bs with
      | nil => exact fun _ => ⟨0, fun x hx => ⟨x, fun _ _ => rfl, hx, by simp, fun _ h => h⟩⟩
      | cons b bs ihbs =>
        intro hbs
        obtain ⟨hb, hbs⟩ := List.cons_subset.mp hbs
        obtain ⟨depth₁, hfirst⟩ := ih b hb
        obtain ⟨depth₂, hrest⟩ := ihbs hbs
        refine ⟨depth₁ + depth₂, fun x hx => ?_⟩
        obtain ⟨y, hy, hPy, hbelow, hkeep⟩ := hfirst x hx
        obtain ⟨z, hz, hPz, hall, hkeep'⟩ := hrest y hPy
        refine ⟨z, fun depth hdepth => ?_, hPz, ?_, fun c hc => hkeep' c (hkeep c hc)⟩
        · rw [List.foldlM_cons, hy depth (by omega)]
          exact hz depth (by omega)
        · exact List.forall_mem_cons.mpr ⟨fun c hc => hkeep' c (hbelow c hc), hall⟩
    obtain ⟨depth₀, hloop⟩ := hsuccs (T.succs a) (List.Subset.refl _)
    refine ⟨depth₀ + 1, fun x hx => ?_⟩
    obtain ⟨y, hy, hPy, hdone, hkeep⟩ := hstep a x hx
    obtain ⟨z, hz, hPz, hall, hkeep'⟩ := hloop y hPy
    refine ⟨z, fun depth hdepth => ?_, hPz, fun b hreach => ?_, fun b hb => hkeep' b (hkeep b hb)⟩
    · obtain ⟨depth, rfl⟩ := Nat.exists_eq_add_of_le' (Nat.le_of_add_left_le hdepth)
      rw [hf.placed hfits hnodes, hy]
      exact hz depth (by omega)
    · rcases hreach.cases_head with rfl | ⟨c, hc, hreach⟩
      · exact hkeep' _ hdone
      · exact hall c hc b hreach

end BettingDag

end MasterAI
