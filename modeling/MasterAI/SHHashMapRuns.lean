import MasterAI.SHHashMap

namespace MasterAI

namespace SHHaspMap

variable {κ : Type*} {h h' h'' : SHHaspMap κ} {free : List Nat} {chains : Nat → List Nat} {node b : Nat}

/-- The free list, linked in both directions. -/
structure FreeList (h : SHHaspMap κ) (free : List Nat) : Prop where
  next : Linked h.next h.freeHead free
  prev : Linked h.prev h.freeTail free.reverse

/-- Two maps with the same sizes, keys and buckets. -/
structure SameRecords (h h' : SHHaspMap κ) : Prop where
  totalSize : h'.totalSize = h.totalSize
  buckets : h'.buckets = h.buckets
  bucket : h'.bucket = h.bucket
  key : h'.key = h.key

theorem pushNode_nil (hhead : h.freeHead = none) (node : Nat) : h.pushNode node = { h with
    freeHead := some node
    freeTail := some node
    next := Function.update h.next node none
    prev := Function.update h.prev node none
    useSize := countDown h.useSize } := by
  unfold pushNode
  rw [hhead]

theorem pushNode_cons {head : Nat} (hhead : h.freeHead = some head) (node : Nat) : h.pushNode node = { h with
    next := Function.update h.next node (some head)
    prev := Function.update (Function.update h.prev node none) head (some node)
    freeHead := some node
    useSize := countDown h.useSize } := by
  unfold pushNode
  rw [hhead]

theorem pushNode_same (h : SHHaspMap κ) (node : Nat) :
    SameRecords h (h.pushNode node) ∧ (h.pushNode node).useSize = countDown h.useSize := by
  unfold pushNode
  split <;> exact ⟨⟨rfl, rfl, rfl, rfl⟩, rfl⟩

theorem pushNode_next (h : SHHaspMap κ) {m : Nat} (hm : m ≠ node) : (h.pushNode node).next m = h.next m := by
  unfold pushNode
  split <;> exact Function.update_of_ne hm _ _

/-- A node is put in front of the free list. -/
theorem FreeList.push (hf : h.FreeList free) (hnodup : (node :: free).Nodup) :
    (h.pushNode node).FreeList (node :: free) := by
  obtain ⟨hnode, hfree⟩ := List.nodup_cons.mp hnodup
  cases free with
  | nil =>
    have hhead : h.freeHead = none := hf.next
    rw [pushNode_nil hhead]
    exact ⟨⟨rfl, Function.update_self _ _ _⟩, ⟨rfl, Function.update_self _ _ _⟩⟩
  | cons head rest =>
    have hhead : h.freeHead = some head := hf.next.1
    have hne : head ≠ node := fun heq => hnode (by simp [heq])
    have hpush := hf.next.push hnode
    have hprev := hf.prev
    rw [hhead] at hpush
    rw [List.reverse_cons] at hprev
    rw [pushNode_cons hhead]
    refine ⟨hpush, ?_⟩
    rw [List.reverse_cons, List.reverse_cons, List.append_assoc]
    refine hprev.append (fun x hx => ?_) ?_
    · have hx := List.mem_reverse.mp hx
      have hxhead : x ≠ head := fun heq => (List.nodup_cons.mp hfree).1 (heq ▸ hx)
      have hxnode : x ≠ node := fun heq => hnode (heq ▸ List.mem_cons_of_mem _ hx)
      dsimp only
      rw [Function.update_of_ne hxhead, Function.update_of_ne hxnode]
    · dsimp only
      rw [Function.update_self]
      refine ⟨rfl, ?_⟩
      rw [Function.update_of_ne hne.symm, Function.update_self]
      rfl

/-- The state of the map where no stale link is left. -/
structure Core (h : SHHaspMap κ) (free : List Nat) (chains : Nat → List Nat) : Prop where
  freeList : h.FreeList free
  chain : ∀ b < h.buckets, Linked h.next (h.bucket b) (chains b)
  nodes : (free ++ gather h.buckets chains).Perm (List.range h.totalSize)
  useSize : h.useSize = (gather h.buckets chains).length
  small : h.totalSize < 4294967296 ∧ h.buckets < 4294967296

theorem Core.nodup (hc : h.Core free chains) : (free ++ gather h.buckets chains).Nodup :=
  hc.nodes.nodup_iff.mpr List.nodup_range

theorem Core.gather_length (hc : h.Core free chains) :
    free.length + (gather h.buckets chains).length = h.totalSize := by
  have := hc.nodes.length_eq
  rwa [List.length_append, List.length_range] at this

theorem Core.chain_length (hc : h.Core free chains) (hb : b < h.buckets) :
    (chains b).length < h.totalSize + 1 := by
  have hperm := (gather_perm hb chains).length_eq
  have := hc.gather_length
  rw [List.length_append] at hperm
  omega

/-- The loop of an enumeration finds the first record of the buckets that are left. -/
theorem scan_spec (hchain : ∀ b < h.buckets, Linked h.next (h.bucket b) (chains b)) (left : Nat)
    (hleft : h.curBucket + left = h.buckets) :
    ((List.range' h.curBucket left).flatMap chains = [] ∧ (scan left h).2 = none) ∨
      ∃ b node rest, b < h.buckets ∧ chains b = node :: rest ∧
        scan left h = ({ h with curBucket := b, nextNode := h.next node }, some node) ∧
        (List.range' h.curBucket left).flatMap chains =
          node :: (rest ++ (List.range' (b + 1) (h.buckets - (b + 1))).flatMap chains) := by
  induction left generalizing h with
  | zero => exact Or.inl ⟨rfl, rfl⟩
  | succ left ih =>
    have hlt : h.curBucket < h.buckets := by omega
    have hhere := hchain _ hlt
    rw [List.range'_succ, List.flatMap_cons]
    cases hcur : chains h.curBucket with
    | nil =>
      rw [hcur] at hhere
      have hempty : h.bucket h.curBucket = none := hhere
      simp only [scan, hempty, List.nil_append]
      exact ih (h := { h with curBucket := h.curBucket + 1 }) hchain (by simp only; omega)
    | cons node rest =>
      rw [hcur] at hhere
      refine Or.inr ⟨h.curBucket, node, rest, hlt, hcur, ?_, ?_⟩
      · simp only [scan, hhere.1]
      · rw [show h.buckets - (h.curBucket + 1) = left by omega]
        rfl

theorem nextRecord_end (hnode : h.nextNode = none) (hcur : h.curBucket < 4294967295) :
    h.nextRecord = scan (h.buckets - (h.curBucket + 1)) { h with curBucket := h.curBucket + 1 } := by
  have hup : countUp h.curBucket = h.curBucket + 1 := by
    unfold countUp
    rw [if_neg (by omega)]
  unfold nextRecord
  split
  next node hsome => exact absurd (hnode.symm.trans hsome) (by simp)
  next => simp only [hup]

/-- Repeated calls of `Next` return the rest of a chain and then the chains behind it. -/
theorem collect_spec (hchain : ∀ b < h.buckets, Linked h.next (h.bucket b) (chains b)) {rest : List Nat}
    (hrest : Linked h.next h.nextNode rest) (hcur : h.curBucket < h.buckets) (hsmall : h.buckets < 4294967296)
    (fuel : Nat)
    (hfuel : (rest ++ (List.range' (h.curBucket + 1) (h.buckets - (h.curBucket + 1))).flatMap chains).length < fuel) :
    collect fuel h =
      some (rest ++ (List.range' (h.curBucket + 1) (h.buckets - (h.curBucket + 1))).flatMap chains) := by
  induction fuel generalizing h rest with
  | zero => omega
  | succ fuel ih =>
    cases rest with
    | cons node rest =>
      obtain ⟨hnode, hrest⟩ := hrest
      simp only [List.cons_append, List.length_cons] at hfuel
      have hcollect := ih (h := { h with nextNode := h.next node }) hchain hrest hcur hsmall (by simpa using hfuel)
      simp only [collect, nextRecord, hnode, hcollect]
      rfl
    | nil =>
      have hnode : h.nextNode = none := hrest
      simp only [List.nil_append] at hfuel ⊢
      rw [collect, nextRecord_end hnode (by omega)]
      rcases scan_spec (h := { h with curBucket := h.curBucket + 1 }) hchain
        (h.buckets - (h.curBucket + 1)) (by simp only; omega) with
        ⟨hempty, hnone⟩ | ⟨b, node, rest, hb, hchains, hscan, hsplit⟩
      · rw [hempty]
        split
        next => rfl
        next hsome => exact absurd (hnone.symm.trans (congrArg Prod.snd hsome)) (by simp)
      · rw [hscan, hsplit]
        rw [hsplit] at hfuel
        simp only [List.length_cons] at hfuel
        have hafter := hchain b hb
        rw [hchains] at hafter
        have hcollect := ih (h := { h with curBucket := b, nextNode := h.next node }) hchain hafter.2 hb hsmall
          (by simpa using hfuel)
        simp only [hcollect, Option.map_some]

/-- An enumeration returns the chains of all buckets one after another. -/
theorem Core.enumerate (hc : h.Core free chains) : h.enumerate = some (gather h.buckets chains) := by
  have hlength := hc.gather_length
  unfold SHHaspMap.enumerate begin
  rw [gather, List.range_eq_range'] at *
  rcases scan_spec (h := { h with curBucket := 0 }) hc.chain h.buckets (Nat.zero_add _) with
    ⟨hempty, hnone⟩ | ⟨b, node, rest, hb, hchains, hscan, hsplit⟩
  · rw [hempty]
    split
    next => rfl
    next hsome => exact absurd (hnone.symm.trans (congrArg Prod.snd hsome)) (by simp)
  · rw [hscan, hsplit]
    rw [hsplit] at hlength
    simp only [List.length_cons] at hlength
    have hafter := hc.chain b hb
    rw [hchains] at hafter
    have hcollect := collect_spec (h := { h with curBucket := b, nextNode := h.next node })
      hc.chain hafter.2 hb hc.small.2 (h.totalSize + 1) (by simp only; omega)
    simp only [hcollect, Option.map_some]

theorem SameRecords.chain (hsame : SameRecords h h') (hchain : ∀ b < h.buckets, Linked h.next (h.bucket b) (chains b))
    (hnext : ∀ b < h.buckets, ∀ x ∈ chains b, h'.next x = h.next x) :
    ∀ b < h'.buckets, Linked h'.next (h'.bucket b) (chains b) := by
  intro b hb
  rw [hsame.buckets] at hb
  rw [hsame.bucket]
  exact (hchain b hb).congr (hnext b hb)

/-- Pushing nodes one after another onto the free list. -/
theorem FreeList.pushAll (nodes free : List Nat) (hf : h.FreeList free) (hnodup : (nodes.reverse ++ free).Nodup) :
    (nodes.foldl pushNode h).FreeList (nodes.reverse ++ free) ∧ SameRecords h (nodes.foldl pushNode h) := by
  induction nodes generalizing h free with
  | nil => exact ⟨hf, ⟨rfl, rfl, rfl, rfl⟩⟩
  | cons node nodes ih =>
    rw [List.reverse_cons, List.append_assoc] at hnodup ⊢
    obtain ⟨hfree, hsame⟩ := ih _ (hf.push (List.nodup_append.mp hnodup).2.1) hnodup
    have hpush := (h.pushNode_same node).1
    exact ⟨hfree, ⟨hsame.totalSize.trans hpush.totalSize, hsame.buckets.trans hpush.buckets,
      hsame.bucket.trans hpush.bucket, hsame.key.trans hpush.key⟩⟩

/-- `Init` leaves every node in the free list. -/
theorem Core.init {unset : SHHaspMap κ} {size buckets : Nat} {hash : Option (κ → Nat)} (hsize : size < 4294967296)
    (hbuckets : buckets < 4294967296) (h : SHHaspMap.init unset size hash buckets = .ok h') :
    h'.Core (List.range size).reverse fun _ => [] := by
  unfold SHHaspMap.init at h
  split at h
  next => cases h
  next =>
    cases hash with
    | none => cases h
    | some hash =>
      cases h
      have hgather : ∀ m, gather m (fun _ => ([] : List Nat)) = [] := fun m => by simp [gather]
      obtain ⟨hfree, hsame⟩ := FreeList.pushAll (List.range size) [] (h := { unset with
        freeHead := none
        freeTail := none
        totalSize := size
        buckets := buckets
        myHash := hash }) ⟨rfl, rfl⟩ (by simp [List.nodup_range])
      rw [List.append_nil] at hfree
      refine ⟨⟨hfree.next, hfree.prev⟩, fun _ _ => rfl, ?_, ?_, ?_⟩
      · rw [hgather, List.append_nil]
        simp only [hsame.totalSize]
        exact List.reverse_perm _
      · rw [hgather]
        rfl
      · simp only [hsame.totalSize, hsame.buckets]
        exact ⟨hsize, hbuckets⟩

theorem hash_lt {k : κ} {index : Nat} (h' : h.hash k = some index) : index < h.buckets := by
  unfold hash at h'
  split at h'
  next => cases h'
  next hne =>
    cases h'
    exact Nat.mod_lt _ (by omega)

/-- The map after the last free node was given a key and put in front of a bucket. -/
def occupied (h : SHHaspMap κ) (k : κ) (index p : Nat) : SHHaspMap κ :=
  { h with
    freeTail := h.prev p
    prev := Function.update h.prev p none
    freeHead := if h.prev p = none then none else h.freeHead
    useSize := countUp h.useSize
    key := Function.update h.key p k
    next := Function.update h.next p (h.bucket index)
    bucket := Function.update h.bucket index (some p) }

/-- The map after a node was taken out of its chain. -/
def unlinked (h : SHHaspMap κ) (index node : Nat) (pre : Option Nat) : SHHaspMap κ :=
  let h := h.unlink index node pre
  { h with next := Function.update h.next node none }

theorem unlinked_same (h : SHHaspMap κ) (index node : Nat) (pre : Option Nat) :
    (h.unlinked index node pre).freeHead = h.freeHead ∧ (h.unlinked index node pre).freeTail = h.freeTail ∧
      (h.unlinked index node pre).prev = h.prev ∧ (h.unlinked index node pre).useSize = h.useSize ∧
      (h.unlinked index node pre).totalSize = h.totalSize ∧ (h.unlinked index node pre).buckets = h.buckets ∧
      (h.unlinked index node pre).key = h.key := by
  cases pre <;> exact ⟨rfl, rfl, rfl, rfl, rfl, rfl, rfl⟩

theorem unlinked_bucket {index : Nat} {pre : Option Nat} (hb : b ≠ index) :
    (h.unlinked index node pre).bucket b = h.bucket b := by
  cases pre with
  | none => exact Function.update_of_ne hb _ _
  | some y => rfl

theorem unlinked_next {index x : Nat} {pre : Option Nat} (hnode : x ≠ node) (hpre : ∀ y, pre = some y → x ≠ y) :
    (h.unlinked index node pre).next x = h.next x := by
  unfold unlinked
  simp only [Function.update_of_ne hnode]
  cases pre with
  | none => rfl
  | some y => exact Function.update_of_ne (hpre y rfl) _ _

theorem unlinked_chain {index : Nat} {before after : List Nat}
    (hchain : Linked h.next (h.bucket index) (before ++ node :: after)) (hnodup : (before ++ node :: after).Nodup) :
    Linked (h.unlinked index node before.getLast?).next ((h.unlinked index node before.getLast?).bucket index)
      (before ++ after) := by
  have hnode : node ∉ before ++ after := (List.nodup_cons.mp (List.perm_middle.nodup_iff.mp hnodup)).1
  rcases List.eq_nil_or_concat before with rfl | ⟨front, y, rfl⟩
  · have hrest := hchain.2.update hnode none
    simpa [unlinked, unlink] using hrest
  · rw [List.concat_eq_append] at hchain hnodup hnode ⊢
    rw [List.append_assoc] at hchain hnodup hnode ⊢
    have hrest := (hchain.unlink hnodup).update hnode none
    simpa [unlinked, unlink] using hrest

variable [DecidableEq κ]

theorem get_found {k : κ} {index : Nat} {pre : Option Nat} (hindex : h.hash k = some index)
    (hsearch : h.search k index = some (.found pre node)) : h.get k = some (some node) := by
  unfold get
  rw [hindex]
  simp only [Option.bind_some, hsearch, Option.map_some]

theorem get_absent {k : κ} {index count : Nat} (hindex : h.hash k = some index)
    (hsearch : h.search k index = some (.absent count)) : h.get k = some none := by
  unfold get
  rw [hindex]
  simp only [Option.bind_some, hsearch, Option.map_some]

/-- What a call of `Add` can do. -/
theorem add_cases {k : κ} {pValNull : Bool} {code : Int} {handed : Option Nat}
    (h' : h.add k pValNull = some (code, handed, h'')) :
    (handed = none ∧ h'' = h ∧ (pValNull = true → h.get k = some none → h.freeTail = none)) ∨
      pValNull = true ∧ h.get k = some none ∧
        ∃ index p, index < h.buckets ∧ h.freeTail = some p ∧ handed = some p ∧ h'' = h.occupied k index p := by
  obtain ⟨index, hindex, h'⟩ := Option.bind_eq_some_iff.mp h'
  cases pValNull with
  | false =>
    cases h'
    exact Or.inl ⟨rfl, rfl, fun hfalse => absurd hfalse (by simp)⟩
  | true =>
    obtain ⟨end', hsearch, h'⟩ := Option.map_eq_some_iff.mp h'
    cases end' with
    | found pre node =>
      cases h'
      exact Or.inl ⟨rfl, rfl, fun _ hnone => absurd ((get_found hindex hsearch).symm.trans hnone) (by simp)⟩
    | absent count =>
      have hcount : ¬(¬count > 100 ∧ count > 1000) := by omega
      simp only [if_neg hcount] at h'
      cases htail : h.freeTail with
      | none =>
        simp only [popNode, htail, Option.map_none] at h'
        cases h'
        exact Or.inl ⟨rfl, rfl, fun _ _ => rfl⟩
      | some p =>
        simp only [popNode, htail, Option.map_some] at h'
        refine Or.inr ⟨rfl, get_absent hindex hsearch, index, p, hash_lt hindex, rfl, ?_⟩
        unfold occupied
        cases hbucket : h.bucket index with
        | none =>
          simp only [hbucket, Function.update_idem] at h'
          cases h'
          exact ⟨rfl, rfl⟩
        | some first =>
          simp only [hbucket, Function.update_idem] at h'
          cases h'
          exact ⟨rfl, rfl⟩

/-- What a call of `Del` can do. -/
theorem del_cases {k : κ} {code : Int} {given : Option Nat} (h' : h.del k = some (code, given, h'')) :
    given = none ∧ h'' = h ∨ ∃ index pre node, index < h.buckets ∧ h.search k index = some (.found pre node) ∧
      given = some node ∧ h'' = (h.unlinked index node pre).pushNode node := by
  obtain ⟨index, hindex, h'⟩ := Option.bind_eq_some_iff.mp h'
  obtain ⟨end', hsearch, h'⟩ := Option.map_eq_some_iff.mp h'
  cases end' with
  | found pre node =>
    cases h'
    exact Or.inr ⟨index, pre, node, hash_lt hindex, hsearch, rfl, rfl⟩
  | absent count =>
    cases h'
    exact Or.inl ⟨rfl, rfl⟩

omit [DecidableEq κ] in
/-- The last node of a free list that is not empty. -/
theorem FreeList.last {p : Nat} (hf : h.FreeList free) (htail : h.freeTail = some p) :
    ∃ before, free = before ++ [p] ∧ Linked h.prev (h.prev p) before.reverse := by
  have hprev := hf.prev
  cases hreverse : free.reverse with
  | nil =>
    rw [hreverse, htail] at hprev
    cases hprev
  | cons q rest =>
    rw [hreverse, htail] at hprev
    obtain ⟨hq, hrest⟩ := hprev
    cases hq
    refine ⟨rest.reverse, ?_, by rwa [List.reverse_reverse]⟩
    rw [← List.reverse_reverse free, hreverse, List.reverse_cons]

omit [DecidableEq κ] in
theorem Core.notMem_chain (hc : h.Core free chains) {p : Nat} (hp : p ∈ free) (hb : b < h.buckets) :
    p ∉ chains b := fun hmem =>
  (List.nodup_append.mp hc.nodup).2.2 p hp p (mem_gather hb hmem) rfl

omit [DecidableEq κ] in
/-- The only free node is taken. -/
theorem Core.occupied {p index : Nat} {k : κ} (hc : h.Core [p] chains) (htail : h.freeTail = some p)
    (hindex : index < h.buckets) :
    (h.occupied k index p).Core [] (Function.update chains index (p :: chains index)) := by
  have hlast : h.prev p = none := by
    obtain ⟨before, hsplit, hprev⟩ := hc.freeList.last htail
    cases before with
    | nil => exact hprev
    | cons q rest => simp at hsplit
  have hgather := gather_update_cons (f := chains) hindex (List.Perm.refl (p :: chains index))
  have hcount := hc.gather_length
  have hsmall := hc.small.1
  rw [List.length_singleton] at hcount
  refine ⟨⟨?_, ?_⟩, ?_, ?_, ?_, hc.small⟩
  · simp [Linked, SHHaspMap.occupied, hlast]
  · simp [Linked, SHHaspMap.occupied, hlast]
  · intro b hb
    have hp : p ∉ chains b := hc.notMem_chain (List.mem_singleton_self p) hb
    have hchain := hc.chain b hb
    by_cases heq : b = index
    · subst heq
      simp only [SHHaspMap.occupied, Function.update_self]
      exact hchain.push hp
    · simp only [SHHaspMap.occupied, Function.update_of_ne heq]
      exact hchain.update hp _
  · rw [List.nil_append]
    exact hgather.trans hc.nodes
  · have huse := hc.useSize
    simp only [SHHaspMap.occupied, countUp]
    rw [hgather.length_eq, if_neg (by omega), huse, List.length_cons]

omit [DecidableEq κ] in
/-- A node leaves its chain and joins the free list. -/
theorem Core.released {index : Nat} {before after : List Nat} (hc : h.Core free chains)
    (hindex : index < h.buckets) (hsplit : chains index = before ++ node :: after) :
    ((h.unlinked index node before.getLast?).pushNode node).Core (node :: free)
      (Function.update chains index (before ++ after)) := by
  have hgatherNodup := (List.nodup_append.mp hc.nodup).2.1
  have hchain := hc.chain index hindex
  have hchainNodup := nodup_of_gather hgatherNodup hindex
  have hnodeMem : node ∈ chains index := by simp [hsplit]
  have hpre : ∀ y, before.getLast? = some y → y ∈ chains index := fun y hy => by
    simp [hsplit, List.mem_of_getLast? hy]
  have hnext : ∀ x, x ∉ chains index → (h.unlinked index node before.getLast?).next x = h.next x := fun x hx =>
    unlinked_next (fun heq => hx (by rwa [heq])) fun y hy heq => hx (by rw [heq]; exact hpre y hy)
  obtain ⟨hfreeHead, hfreeTail, hprev, huse, htotal, hbuckets, -⟩ := h.unlinked_same index node before.getLast?
  have hfree : (h.unlinked index node before.getLast?).FreeList free := by
    refine ⟨?_, ?_⟩
    · rw [hfreeHead]
      exact hc.freeList.next.congr fun x hx => hnext x (hc.notMem_chain hx hindex)
    · rw [hfreeTail, hprev]
      exact hc.freeList.prev
  have hnodeFree : node ∉ free := fun hmem => hc.notMem_chain hmem hindex hnodeMem
  have hgather := gather_update_uncons hindex (show (chains index).Perm (node :: (before ++ after)) by
    rw [hsplit]
    exact List.perm_middle)
  obtain ⟨hpush, hpushUse⟩ := (h.unlinked index node before.getLast?).pushNode_same node
  refine ⟨hfree.push (List.nodup_cons.mpr ⟨hnodeFree, (List.nodup_append.mp hc.nodup).1⟩), ?_, ?_, ?_, ?_⟩
  · intro b hb
    rw [hpush.buckets, hbuckets] at hb
    rw [hpush.bucket]
    by_cases heq : b = index
    · subst heq
      rw [Function.update_self]
      rw [hsplit] at hchain hchainNodup
      refine (unlinked_chain hchain hchainNodup).congr fun x hx => pushNode_next _ fun heq => ?_
      exact (List.nodup_cons.mp (List.perm_middle.nodup_iff.mp hchainNodup)).1 (heq ▸ hx)
    · rw [Function.update_of_ne heq, unlinked_bucket heq]
      have hout : ∀ x ∈ chains b, x ∉ chains index := fun x hx =>
        notMem_of_gather hgatherNodup hb hindex (Ne.symm heq) hx
      refine (hc.chain b hb).congr fun x hx => ?_
      rw [pushNode_next _ fun heq => hout x hx (by rwa [heq]), hnext x (hout x hx)]
  · rw [hpush.totalSize, hpush.buckets, htotal, hbuckets]
    exact List.perm_middle.symm.trans ((hgather.append_left free).symm.trans hc.nodes)
  · rw [hpushUse, huse, hpush.buckets, hbuckets, hc.useSize, hgather.length_eq]
    rfl
  · rw [hpush.totalSize, hpush.buckets, htotal, hbuckets]
    exact hc.small

omit [DecidableEq κ] in
/-- The inner loop of `Clear` moves a chain to the free list. -/
theorem clearChain_spec (fuel : Nat) {start : Option Nat} {xs : List Nat} (hlinked : Linked h.next start xs)
    (hf : h.FreeList free) (hnodup : (xs.reverse ++ free).Nodup) (hfuel : xs.length < fuel)
    (huse : xs.length ≤ h.useSize) :
    ∃ cleared, clearChain fuel start h = some cleared ∧ cleared.FreeList (xs.reverse ++ free) ∧
      SameRecords h cleared ∧ cleared.useSize + xs.length = h.useSize ∧
      ∀ x ∉ xs, cleared.next x = h.next x := by
  induction xs generalizing fuel start h free with
  | nil =>
    obtain ⟨fuel, rfl⟩ := Nat.exists_eq_succ_of_ne_zero (show fuel ≠ 0 by omega)
    obtain rfl : start = none := hlinked
    exact ⟨h, rfl, hf, ⟨rfl, rfl, rfl, rfl⟩, rfl, fun _ _ => rfl⟩
  | cons node xs ih =>
    simp only [List.length_cons] at hfuel huse
    obtain ⟨fuel, rfl⟩ := Nat.exists_eq_succ_of_ne_zero (show fuel ≠ 0 by omega)
    obtain ⟨rfl, hrest⟩ := hlinked
    rw [List.reverse_cons, List.append_assoc] at hnodup ⊢
    obtain ⟨-, hpushed, hapart⟩ := List.nodup_append.mp hnodup
    obtain ⟨hnodeFree, hfreeNodup⟩ := List.nodup_cons.mp hpushed
    have hnode : node ∉ xs := fun hmem => hapart node (List.mem_reverse.mpr hmem) node (by simp) rfl
    obtain ⟨cut, hcut⟩ : ∃ cut, cut = { h with next := Function.update h.next node none } := ⟨_, rfl⟩
    have hcutFree : cut.FreeList free := by
      rw [hcut]
      exact ⟨hf.next.update hnodeFree none, hf.prev⟩
    have hpushNext : ∀ x, x ≠ node → (cut.pushNode node).next x = h.next x := by
      intro x hx
      rw [pushNode_next _ hx, hcut]
      exact Function.update_of_ne hx _ _
    obtain ⟨hpush, hpushUse⟩ := cut.pushNode_same node
    have hcount : (cut.pushNode node).useSize = h.useSize - 1 := by
      have huseCut : cut.useSize = h.useSize := by rw [hcut]
      rw [hpushUse, huseCut]
      exact if_neg (by omega)
    obtain ⟨cleared, hclear, hfree, hsame, hcleared, hnext⟩ := ih (h := cut.pushNode node) fuel
      (hrest.congr fun x hx => hpushNext x fun heq => hnode (heq ▸ hx)) (hcutFree.push hpushed) hnodup
      (by omega) (by omega)
    refine ⟨cleared, ?_, hfree, ?_, ?_, ?_⟩
    · rw [← hclear, hcut]
      rfl
    · refine ⟨hsame.totalSize.trans (hpush.totalSize.trans ?_), hsame.buckets.trans (hpush.buckets.trans ?_),
        hsame.bucket.trans (hpush.bucket.trans ?_), hsame.key.trans (hpush.key.trans ?_)⟩ <;> rw [hcut]
    · rw [List.length_cons]
      omega
    · intro x hx
      rw [List.mem_cons, not_or] at hx
      rw [hnext x hx.2, hpushNext x hx.1]

omit [DecidableEq κ] in
theorem Core.clearBucket {i : Nat} (hc : h.Core free chains) (hi : i < h.buckets) :
    ∃ cleared, h.clearBucket i = some cleared ∧
      cleared.Core ((chains i).reverse ++ free) (Function.update chains i []) ∧ cleared.buckets = h.buckets := by
  have hgatherNodup := (List.nodup_append.mp hc.nodup).2.1
  have hsplit := gather_perm hi chains
  have hlength := hsplit.length_eq
  rw [List.length_append] at hlength
  have huse := hc.useSize
  have hnodup : ((chains i).reverse ++ free).Nodup := by
    have hall := ((hsplit.append_left free).nodup_iff.mp hc.nodup)
    rw [← List.append_assoc] at hall
    have hpart := (List.nodup_append.mp hall).1
    exact (List.perm_append_comm.trans ((List.reverse_perm (chains i)).symm.append_right free)).nodup_iff.mp hpart
  obtain ⟨cleared, hclear, hfree, hsame, hcount, hnext⟩ := clearChain_spec (h.totalSize + 1)
    (hc.chain i hi) hc.freeList hnodup (hc.chain_length hi) (by omega)
  have hgather : (gather h.buckets chains).Perm (chains i ++ gather h.buckets (Function.update chains i [])) := by
    have hmoved := gather_update hi chains []
    rw [List.append_nil] at hmoved
    exact (List.perm_append_comm.trans hmoved).symm
  refine ⟨{ cleared with bucket := Function.update cleared.bucket i none }, ?_, ⟨⟨hfree.next, hfree.prev⟩, ?_, ?_, ?_, ?_⟩,
    hsame.buckets⟩
  · unfold SHHaspMap.clearBucket
    rw [hclear]
    rfl
  · intro b hb
    simp only [hsame.buckets] at hb
    simp only [hsame.bucket]
    by_cases heq : b = i
    · subst heq
      rw [Function.update_self, Function.update_self]
      rfl
    · rw [Function.update_of_ne heq, Function.update_of_ne heq]
      exact (hc.chain b hb).congr fun x hx => hnext x (notMem_of_gather hgatherNodup hb hi (Ne.symm heq) hx)
  · simp only [hsame.buckets, hsame.totalSize]
    have hmoved := (hgather.append_left free).symm.trans hc.nodes
    rw [List.append_assoc]
    refine List.Perm.trans ?_ hmoved
    refine (List.reverse_perm (chains i)).append_right _ |>.trans ?_
    rw [← List.append_assoc, ← List.append_assoc]
    exact List.perm_append_comm.append_right _
  · have hgatherLength := hgather.length_eq
    rw [List.length_append] at hgatherLength
    simp only [hsame.buckets]
    omega
  · simp only [hsame.buckets, hsame.totalSize]
    exact hc.small

omit [DecidableEq κ] in
theorem Core.clearBuckets (indices : List Nat) (hc : h.Core free chains) (hin : ∀ i ∈ indices, i < h.buckets) :
    ∃ cleared free' chains', indices.foldlM SHHaspMap.clearBucket h = some cleared ∧ cleared.Core free' chains' ∧
      cleared.buckets = h.buckets ∧ (∀ i ∈ indices, chains' i = []) ∧ ∀ i, chains i = [] → chains' i = [] := by
  induction indices generalizing h free chains with
  | nil => exact ⟨h, free, chains, rfl, hc, rfl, by simp, fun _ hi => hi⟩
  | cons i indices ih =>
    obtain ⟨first, hfirst, hcore, hbuckets⟩ := hc.clearBucket (hin i (by simp))
    obtain ⟨cleared, free', chains', hfold, hcleared, hsame, hempty, hkeep⟩ :=
      ih hcore fun j hj => by rw [hbuckets]; exact hin j (by simp [hj])
    refine ⟨cleared, free', chains', ?_, hcleared, hsame.trans hbuckets, ?_, ?_⟩
    · rw [List.foldlM_cons, hfirst]
      exact hfold
    · intro j hj
      rcases List.mem_cons.mp hj with rfl | hj
      · exact hkeep j (Function.update_self _ _ _)
      · exact hempty j hj
    · intro j hj
      refine hkeep j ?_
      by_cases heq : j = i
      · rw [heq, Function.update_self]
      · rw [Function.update_of_ne heq, hj]

omit [DecidableEq κ] in
/-- `Clear` ends, and every node is free. -/
theorem Core.clear (hc : h.Core free chains) :
    ∃ cleared free' chains', h.clear = some cleared ∧ cleared.Core free' chains' ∧
      gather cleared.buckets chains' = [] := by
  have hstart : { h with nextNode := none }.Core free chains :=
    ⟨⟨hc.freeList.next, hc.freeList.prev⟩, hc.chain, hc.nodes, hc.useSize, hc.small⟩
  obtain ⟨cleared, free', chains', hclear, hcore, hbuckets, hempty, -⟩ :=
    hstart.clearBuckets (List.range h.buckets) fun i hi => List.mem_range.mp hi
  refine ⟨cleared, free', chains', hclear, hcore, ?_⟩
  rw [gather, List.flatMap_eq_nil_iff, hbuckets]
  exact hempty

/-- The map with its live records. -/
structure Holds (h : SHHaspMap κ) (trace : SHHaspTrace κ) (free : List Nat) (chains : Nat → List Nat) : Prop where
  core : h.Core free chains
  records : ((gather h.buckets chains).map fun node => (node, h.key node)).Perm (liveRecords trace)

theorem Holds.represents {trace : SHHaspTrace κ} (hh : h.Holds trace free chains) :
    h.Represents trace free chains := by
  refine ⟨hh.core.freeList.next, hh.core.chain, hh.core.nodes, hh.records, ?_, ⟨_, hh.core.enumerate, List.Perm.refl _⟩⟩
  rw [hh.core.useSize, ← hh.records.length_eq, List.length_map]

/-- What a search comes to in a chain. -/
theorem Core.search {index : Nat} {k : κ} (hc : h.Core free chains) (hindex : index < h.buckets) {pre : Option Nat}
    (hsearch : h.search k index = some (.found pre node)) :
    ∃ before after, chains index = before ++ node :: after ∧ pre = before.getLast? ∧ h.key node = k := by
  rcases walk_linked (f := fun node => h.key node = k) (p := none) (k := 0) (hc.chain index hindex)
    (hc.chain_length hindex) with ⟨before, y, after, hsplit, hy, hwalk⟩ | ⟨-, hwalk⟩
  · unfold SHHaspMap.search at hsearch
    rw [hwalk] at hsearch
    cases hsearch
    exact ⟨before, after, hsplit, by simp, by simpa using hy⟩
  · unfold SHHaspMap.search at hsearch
    rw [hwalk] at hsearch
    cases hsearch

omit [DecidableEq κ] in
theorem Core.freeHead_eq_freeTail_iff (hc : h.Core free chains) : h.freeHead = h.freeTail ↔ free.length ≤ 1 := by
  have hnext := hc.freeList.next
  have hprev := hc.freeList.prev
  have hnodup := (List.nodup_append.mp hc.nodup).1
  cases free with
  | nil =>
    have hhead : h.freeHead = none := hnext
    have htail : h.freeTail = none := hprev
    simp [hhead, htail]
  | cons first rest =>
    have hhead : h.freeHead = some first := hnext.1
    cases hreverse : (first :: rest).reverse with
    | nil => simp at hreverse
    | cons last front =>
      rw [hreverse] at hprev
      rw [hhead, hprev.1]
      have hlast : (first :: rest).getLast? = some last := by rw [← List.head?_reverse, hreverse]; rfl
      cases rest with
      | nil => simpa using hlast
      | cons second rest =>
        rw [List.getLast?_cons_cons] at hlast
        have hmem := List.mem_of_getLast? hlast
        have hne : first ≠ last := fun heq => (List.nodup_cons.mp hnodup).1 (heq ▸ hmem)
        simp [hne]

end SHHaspMap

end MasterAI
