import MasterAI.SHHashMapRuns

namespace MasterAI

namespace SHHaspMap

instance decidableTakesLast {κ : Type*} [DecidableEq κ] (h : SHHaspMap κ) : ∀ e, Decidable (h.TakesLast e)
  | .add k true _ _ => inferInstanceAs (Decidable (h.get k = some none → h.freeHead = h.freeTail))
  | .add _ false _ _ => .isTrue trivial
  | .get _ _ => .isTrue trivial
  | .del _ _ _ => .isTrue trivial
  | .clear => .isTrue trivial

variable {κ : Type*} [DecidableEq κ] {h h' : SHHaspMap κ} {free : List Nat} {chains : Nat → List Nat}
  {trace : SHHaspTrace κ} {e : SHHaspEvent κ}

/-- An `Add` that finds at most one free node. -/
theorem Holds.add {k : κ} {pValNull : Bool} {code : Int} {handed : Option Nat} (hh : h.Holds trace free chains)
    (hadd : h.add k pValNull = some (code, handed, h')) (htakes : h.TakesLast (.add k pValNull code handed)) :
    ∃ free' chains', h'.Holds (⟨h, .add k pValNull code handed, h'⟩ :: trace) free' chains' := by
  rcases add_cases hadd with ⟨rfl, rfl, -⟩ | ⟨rfl, hget, index, p, hindex, htail, rfl, rfl⟩
  · exact ⟨free, chains, hh.core, hh.records⟩
  · obtain ⟨before, rfl, -⟩ := hh.core.freeList.last htail
    have hone := hh.core.freeHead_eq_freeTail_iff.mp (htakes hget)
    rw [List.length_append, List.length_singleton] at hone
    obtain rfl := List.length_eq_zero_iff.mp (show before.length = 0 by omega)
    have hp : p ∉ gather h.buckets chains := (List.nodup_cons.mp hh.core.nodup).1
    refine ⟨[], _, hh.core.occupied htail hindex, ?_⟩
    refine ((gather_update_cons hindex (List.Perm.refl _)).map _).trans ?_
    rw [List.map_cons]
    have hkey : (gather h.buckets chains).map (fun node => (node, (h.occupied k index p).key node)) =
        (gather h.buckets chains).map fun node => (node, h.key node) := by
      refine List.map_congr_left fun node hnode => ?_
      have hne : node ≠ p := fun heq => hp (heq ▸ hnode)
      simp [SHHaspMap.occupied, Function.update_of_ne hne]
    rw [hkey]
    simpa [liveRecords, SHHaspMap.occupied] using hh.records

theorem Holds.del {k : κ} {code : Int} {given : Option Nat} (hh : h.Holds trace free chains)
    (hdel : h.del k = some (code, given, h')) :
    ∃ free' chains', h'.Holds (⟨h, .del k code given, h'⟩ :: trace) free' chains' := by
  rcases del_cases hdel with ⟨rfl, rfl⟩ | ⟨index, pre, node, hindex, hsearch, rfl, rfl⟩
  · exact ⟨free, chains, hh.core, hh.records⟩
  · obtain ⟨before, after, hsplit, rfl, hkey⟩ := hh.core.search hindex hsearch
    obtain ⟨-, -, -, -, -, hbuckets, hkeys⟩ := h.unlinked_same index node before.getLast?
    have hpush := ((h.unlinked index node before.getLast?).pushNode_same node).1
    have hgather := gather_update_uncons hindex (show (chains index).Perm (node :: (before ++ after)) by
      rw [hsplit]
      exact List.perm_middle)
    refine ⟨_, _, hh.core.released hindex hsplit, ?_⟩
    rw [hpush.buckets, hbuckets, hpush.key, hkeys]
    have hmapped := (hgather.map fun node => (node, h.key node)).symm.trans hh.records
    rw [List.map_cons, hkey] at hmapped
    have herased := hmapped.erase (node, k)
    rwa [List.erase_cons_head] at herased

theorem Holds.step (hh : h.Holds trace free chains) (hstep : SHHaspStep h e h') (htakes : h.TakesLast e) :
    ∃ free' chains', h'.Holds (⟨h, e, h'⟩ :: trace) free' chains' := by
  obtain ⟨c, hcall⟩ := hstep
  cases c with
  | add k pValNull =>
    obtain ⟨⟨code, handed, h1⟩, hadd, heq⟩ := Option.map_eq_some_iff.mp hcall
    cases heq
    exact hh.add hadd htakes
  | get k =>
    obtain ⟨node, -, heq⟩ := Option.map_eq_some_iff.mp hcall
    cases heq
    exact ⟨free, chains, hh.core, hh.records⟩
  | del k =>
    obtain ⟨⟨code, given, h1⟩, hdel, heq⟩ := Option.map_eq_some_iff.mp hcall
    cases heq
    exact hh.del hdel
  | clear =>
    obtain ⟨cleared, free', chains', hclear, hcore, hempty⟩ := hh.core.clear
    obtain ⟨h1, hclear', heq⟩ := Option.map_eq_some_iff.mp hcall
    cases heq
    cases hclear.symm.trans hclear'
    refine ⟨free', chains', hcore, ?_⟩
    rw [hempty]
    exact List.Perm.nil

/-- `PopNode` leaves the link of the node before the popped one as it is, so that the free list runs on
into a bucket. -/
theorem Holds.step_unsound (hh : h.Holds trace free chains) (hstep : SHHaspStep h e h') (hnot : ¬h.TakesLast e)
    (trace' : SHHaspTrace κ) : ¬h'.Sound trace' := by
  obtain ⟨c, hcall⟩ := hstep
  cases c with
  | get k =>
    obtain ⟨node, -, heq⟩ := Option.map_eq_some_iff.mp hcall
    cases heq
    exact absurd trivial hnot
  | del k =>
    obtain ⟨⟨code, given, h1⟩, -, heq⟩ := Option.map_eq_some_iff.mp hcall
    cases heq
    exact absurd trivial hnot
  | clear =>
    obtain ⟨h1, -, heq⟩ := Option.map_eq_some_iff.mp hcall
    cases heq
    exact absurd trivial hnot
  | add k pValNull =>
    obtain ⟨⟨code, handed, h1⟩, hadd, heq⟩ := Option.map_eq_some_iff.mp hcall
    cases heq
    cases pValNull with
    | false => exact absurd trivial hnot
    | true =>
      obtain ⟨hget, hmany⟩ := Classical.not_imp.mp hnot
      rw [hh.core.freeHead_eq_freeTail_iff] at hmany
      rcases add_cases hadd with ⟨-, -, hempty⟩ | ⟨-, -, index, p, hindex, htail, -, rfl⟩
      · refine absurd ?_ hmany
        have hprev := hh.core.freeList.prev
        rw [hempty rfl hget] at hprev
        have hlength : free.reverse.length = 0 := by rw [hprev.unique (show Linked _ none [] from rfl)]; rfl
        rw [List.length_reverse] at hlength
        omega
      · obtain ⟨before, rfl, hback⟩ := hh.core.freeList.last htail
        have hpre : h.prev p ≠ none := by
          intro hnone
          rw [hnone] at hback
          have hlength : before.reverse.length = 0 := by rw [hback.unique (show Linked _ none [] from rfl)]; rfl
          rw [List.length_reverse] at hlength
          rw [List.length_append, List.length_singleton] at hmany
          omega
        have hp : ∀ x ∈ before, x ≠ p := fun x hx heq =>
          (List.nodup_append.mp (List.nodup_append.mp hh.core.nodup).1).2.2 x hx p (by simp) heq
        have hchain := (hh.core.chain index hindex).push (hh.core.notMem_chain (p := p) (by simp) hindex)
        have hnext : (h.occupied k index p).next = Function.update h.next p (h.bucket index) := rfl
        have hhead : (h.occupied k index p).freeHead = h.freeHead := if_neg hpre
        have hbucket : (h.occupied k index p).bucket index = some p := Function.update_self _ _ _
        rintro ⟨free', chains', hrep⟩
        have hfree := hrep.free_linked
        rw [hnext, hhead] at hfree
        have hsame : ∀ x ∈ before, Function.update h.next p (h.bucket index) x = h.next x := fun x hx =>
          Function.update_of_ne (hp x hx) _ _
        have hrest : Linked (Function.update h.next p (h.bucket index)) (Function.update h.next p (h.bucket index) p)
            (chains index) := hchain.2
        have hwalk := hh.core.freeList.next.append hsame hrest
        have hbucketChain := hrep.chain_linked index hindex
        rw [hnext, hbucket] at hbucketChain
        have hnodup : (free' ++ gather h.buckets chains').Nodup := hrep.nodes.nodup_iff.mpr List.nodup_range
        rw [hfree.unique hwalk] at hnodup
        have hmem : p ∈ chains' index := by
          rw [hbucketChain.unique hchain]
          exact List.mem_cons_self
        exact (List.nodup_append.mp hnodup).2.2 p (by simp) p (mem_gather hindex hmem) rfl

theorem holds_run {size buckets : Nat} (run : SHHaspRun size buckets trace h)
    (htakes : ∀ m ∈ trace, m.pre.TakesLast m.event) : ∃ free chains, h.Holds trace free chains := by
  induction run with
  | start hs =>
    obtain ⟨hsize, hbuckets, unset, hash, hinit⟩ := hs
    refine ⟨_, _, Core.init hsize hbuckets hinit, ?_⟩
    simp [gather, liveRecords]
  | next _ hstep ih =>
    obtain ⟨free, chains, hh⟩ := ih fun m hm => htakes m (List.mem_cons_of_mem _ hm)
    exact hh.step hstep (htakes _ List.mem_cons_self)

end SHHaspMap

/-- `PopNode` takes the last node of the free list but leaves the link of the node before it, so that the
representation holds exactly in the runs whose calls of `Add` for a new key find at most one free node. -/
theorem represents_run_iff {κ : Type*} [DecidableEq κ] {size buckets : Nat} {trace : SHHaspTrace κ}
    {h : SHHaspMap κ} (run : SHHaspRun size buckets trace h) :
    (h.Sound trace ∧ Guarded (fun older m => m.pre.Sound older) trace) ↔ ∀ m ∈ trace, m.pre.TakesLast m.event := by
  induction run with
  | start hs =>
    obtain ⟨free, chains, hh⟩ := SHHaspMap.holds_run (.start hs) (by simp)
    exact ⟨fun _ => by simp, fun _ => ⟨⟨free, chains, hh.represents⟩, trivial⟩⟩
  | @next trace h e h' older hstep ih =>
    constructor
    · rintro ⟨hsound, hpre, hguarded⟩
      have holder := ih.mp ⟨hpre, hguarded⟩
      obtain ⟨free, chains, hh⟩ := SHHaspMap.holds_run older holder
      have htakes : h.TakesLast e := by
        by_contra hnot
        exact hh.step_unsound hstep hnot _ hsound
      exact List.forall_mem_cons.mpr ⟨htakes, holder⟩
    · intro htakes
      obtain ⟨free, chains, hh⟩ := SHHaspMap.holds_run (.next older hstep) htakes
      obtain ⟨hpre, hguarded⟩ := ih.mpr (List.forall_mem_cons.mp htakes).2
      exact ⟨⟨free, chains, hh.represents⟩, hpre, hguarded⟩

/-- A map before `Init`. -/
def blankMap : SHHaspMap Nat where
  totalSize := 0
  buckets := 0
  useSize := 0
  freeHead := none
  freeTail := none
  bucket := fun _ => none
  key := fun _ => 0
  next := fun _ => none
  prev := fun _ => none
  curBucket := 0
  nextNode := none
  myHash := id

def initialisedMap (size buckets : Nat) : SHHaspMap Nat :=
  match SHHaspMap.init blankMap size (some id) buckets with
  | .ok h => h
  | .error _ => blankMap

theorem SHHaspMap.run_calls {κ : Type*} [DecidableEq κ] {size buckets : Nat} {h : SHHaspMap κ}
    (hstart : size < 4294967296 ∧ buckets < 4294967296 ∧ ∃ unset hash, SHHaspMap.init unset size hash buckets = .ok h)
    (calls : List (SHHaspCall κ)) : SHHaspRun size buckets (runFrom call h calls).1 (runFrom call h calls).2 := by
  refine StepRun.runFrom (fun h c e h' hcall => ⟨c, hcall⟩) ?_ calls
  exact hstart

/-- Calls on a map with one node. -/
def singleCalls : List (SHHaspCall Nat) := [.add 7 true, .get 7, .add 8 true, .del 7, .add 8 true, .clear, .get 8]

theorem represents_single_run :
    (runFrom SHHaspMap.call (initialisedMap 1 2) singleCalls).2.Sound
      (runFrom SHHaspMap.call (initialisedMap 1 2) singleCalls).1 :=
  ((represents_run_iff (SHHaspMap.run_calls ⟨show 1 < 4294967296 by decide, show 2 < 4294967296 by decide, blankMap,
    some id, rfl⟩ singleCalls)).mpr (by decide +kernel)).1

/-- After one `Add` to a map of two nodes, the free list runs into the live record. -/
theorem not_represents_first_add : ∃ (trace : SHHaspTrace Nat) (h : SHHaspMap Nat), SHHaspRun 2 1 trace h ∧ ¬h.Sound trace := by
  have run : SHHaspRun 2 1 [] (initialisedMap 2 1) := .start ⟨by decide, by decide, blankMap, some id, rfl⟩
  obtain ⟨free, chains, hh⟩ := SHHaspMap.holds_run run (by simp)
  obtain ⟨e, h', hcall, hnot⟩ : ∃ e h', (initialisedMap 2 1).call (.add 5 true) = some (e, h') ∧
      ¬(initialisedMap 2 1).TakesLast e := ⟨_, _, rfl, by decide +kernel⟩
  exact ⟨_, h', .next run ⟨_, hcall⟩, hh.step_unsound ⟨_, hcall⟩ hnot _⟩

end MasterAI
