import MasterAI.LinkedChain
import MasterAI.SessionRuns

namespace MasterAI

/-- The map of the sessions. Nodes are numbered; `next` and `game` are their fields, and timers and locks
are left out. -/
structure RunGameHashMap where
  totalSize : Nat
  buckets : Nat
  useSize : Nat
  lstFree : Option Nat
  bucket : Nat → Option Nat
  next : Nat → Option Nat
  game : Nat → RunGame

/-- The increment of an unsigned 32-bit counter. -/
def incUInt32 (n : Nat) : Nat := if n = 4294967295 then 0 else n + 1

/-- The decrement of an unsigned 32-bit counter. -/
def decUInt32 (n : Nat) : Nat := if n = 0 then 4294967295 else n - 1

namespace RunGameHashMap

def pushNode (h : RunGameHashMap) (node : Nat) : RunGameHashMap :=
  { h with
    next := Function.update h.next node h.lstFree
    lstFree := some node
    useSize := decUInt32 h.useSize }

section

variable (h : RunGameHashMap) (node : Nat)

@[simp] theorem pushNode_totalSize : (h.pushNode node).totalSize = h.totalSize := rfl
@[simp] theorem pushNode_buckets : (h.pushNode node).buckets = h.buckets := rfl
@[simp] theorem pushNode_useSize : (h.pushNode node).useSize = decUInt32 h.useSize := rfl
@[simp] theorem pushNode_lstFree : (h.pushNode node).lstFree = some node := rfl
@[simp] theorem pushNode_bucket : (h.pushNode node).bucket = h.bucket := rfl
@[simp] theorem pushNode_next : (h.pushNode node).next = Function.update h.next node h.lstFree := rfl
@[simp] theorem pushNode_game : (h.pushNode node).game = h.game := rfl

end

def popNode (h : RunGameHashMap) : Option (Nat × RunGameHashMap) :=
  h.lstFree.map fun node =>
    (node, { h with
      lstFree := h.next node
      next := Function.update h.next node none
      useSize := incUInt32 h.useSize })

/-- The instance before `Init`, with the sessions that the constructor of a node makes. -/
def unset (games : Nat → RunGame) : RunGameHashMap where
  totalSize := 0
  buckets := 0
  useSize := 0
  lstFree := none
  bucket := fun _ => none
  next := fun _ => none
  game := games

/-- `Init`, which returns true where it fails. -/
def init (size buckets : Nat) (games : Nat → RunGame) : Bool × RunGameHashMap :=
  if size > 50 * 10000 then (true, unset games)
  else if size > 5 * buckets % 4294967296 then (true, unset games)
  else
    let h : RunGameHashMap := { unset games with totalSize := size, buckets := buckets }
    let h := (List.range size).foldl pushNode h
    (false, { h with useSize := 0 })

/-- The bucket of an id: a signed remainder, taken as an unsigned number. Nothing for a division by zero
and for an index behind the buckets. -/
def hash (h : RunGameHashMap) (id : Int) : Option Nat :=
  if h.buckets = 0 then none
  else
    let index := (Int.tmod id h.buckets % 4294967296).toNat
    if index < h.buckets then some index else none

/-- The search for an id in a bucket. -/
def search (h : RunGameHashMap) (id : Int) (index : Nat) : Option (Walk Nat) :=
  walk h.next (fun node => (h.game node).robotID = id) (h.totalSize + 1) none 0 (h.bucket index)

def setLastTime (g : RunGame) (now : Int) : RunGame := { g with lastTime := now }

@[simp] theorem setLastTime_robotID (g : RunGame) (now : Int) : (setLastTime g now).robotID = g.robotID := rfl

def get (h : RunGameHashMap) (id : Int) (updateTime : Bool) (now : Int) : Option (Option RunGame × RunGameHashMap) :=
  (h.hash id).bind fun index =>
    (h.search id index).map fun
      | .found _ node =>
        let h :=
          if updateTime then { h with game := Function.update h.game node (setLastTime (h.game node) now) } else h
        (some (h.game node), h)
      | .absent _ => (none, h)

def add (h : RunGameHashMap) (g : RunGame) (now : Int) : Option (Int × RunGameHashMap) :=
  if g.robotID = 0 then some (-9001, h)
  else
    (h.hash g.robotID).bind fun index =>
      (h.search g.robotID index).map fun
        | .found _ _ => (-9004, h)
        | .absent count =>
          if ¬count > 20 ∧ count > 100 then (-9005, h)
          else
            match h.popNode with
            | none => (-9006, h)
            | some (node, h) =>
              (0, { h with
                game := Function.update h.game node (setLastTime g now)
                next := Function.update h.next node (h.bucket index)
                bucket := Function.update h.bucket index (some node) })

/-- Takes a node out of its chain, from the head of the bucket or from behind another node. -/
def unlink (h : RunGameHashMap) (index node : Nat) : Option Nat → RunGameHashMap
  | none => { h with bucket := Function.update h.bucket index (h.next node) }
  | some pre => { h with next := Function.update h.next pre (h.next node) }

def del (h : RunGameHashMap) (id : Int) : Option (Int × RunGameHashMap) :=
  (h.hash id).bind fun index =>
    (h.search id index).map fun
      | .found pre node =>
        let h := h.unlink index node pre
        let h := { h with
          game := Function.update h.game node { h.game node with robotID := 0 }
          next := Function.update h.next node none }
        (0, h.pushNode node)
      | .absent _ => (-99, h)

end RunGameHashMap

inductive HashMapEvent
  | add (g : RunGame) (now : Int) (result : Int)
  | get (id : Int) (updateTime : Bool) (now : Int) (result : Option RunGame)
  | del (id : Int) (result : Int)

def HashMapEvent.id : HashMapEvent → Int
  | .add g _ _ => g.robotID
  | .get id _ _ _ => id
  | .del id _ => id

def HashMapStep (h : RunGameHashMap) (e : HashMapEvent) (k : RunGameHashMap) : Prop :=
  match e with
  | .add g now result => h.add g now = some (result, k)
  | .get id updateTime now result => h.get id updateTime now = some (result, k)
  | .del id result => h.del id = some (result, k)

def HashMapStart (size buckets : Nat) (h : RunGameHashMap) : Prop :=
  size < 4294967296 ∧ buckets < 4294967296 ∧ ∃ games, h = (RunGameHashMap.init size buckets games).2

abbrev HashMapRun (size buckets : Nat) := StepRun HashMapStep (HashMapStart size buckets)

abbrev HashMapTrace := List (Transition RunGameHashMap HashMapEvent)

/-- The session added last for an id and not deleted since, with the time of its last access. -/
def stored : HashMapTrace → Int → Option RunGame
  | [], _ => none
  | ⟨_, .add g now result, _⟩ :: older, id =>
    if result = 0 ∧ g.robotID = id then some (RunGameHashMap.setLastTime g now) else stored older id
  | ⟨_, .get key updateTime now _, _⟩ :: older, id =>
    if updateTime = true ∧ key = id then (stored older id).map fun g => RunGameHashMap.setLastTime g now
    else stored older id
  | ⟨_, .del key _, _⟩ :: older, id => if key = id then none else stored older id

/-- An id whose signed remainder is a bucket also as an unsigned number. -/
def SafeID (buckets : Nat) (id : Int) : Prop :=
  id ≠ 0 ∧ 0 < buckets ∧
    (0 < id ∨ id.natAbs % buckets = 0 ∨ 4294967296 < buckets + id.natAbs % buckets)

def SafeCall (_ : HashMapTrace) (t : Transition RunGameHashMap HashMapEvent) : Prop :=
  SafeID t.pre.buckets t.event.id

namespace RunGameHashMap

/-- The free nodes and the chains of a map whose nodes all lie in one of them. `used` lists the nodes
that hold a session. -/
structure Holds (h : RunGameHashMap) (free used : List Nat) (chains : Nat → List Nat) : Prop where
  free_linked : Linked h.next h.lstFree free
  chain_linked : ∀ b < h.buckets, Linked h.next (h.bucket b) (chains b)
  chain_nodup : ∀ b < h.buckets, (chains b).Nodup
  chain_mem : ∀ b < h.buckets, ∀ x, x ∈ chains b ↔ x ∈ used ∧ h.hash (h.game x).robotID = some b
  nodes : (free ++ used).Perm (List.range h.totalSize)
  hashed : ∀ x ∈ used, (h.hash (h.game x).robotID).isSome
  ids : (used.map fun x => (h.game x).robotID).Nodup
  useSize : h.useSize = used.length
  totalSize : h.totalSize ≤ 500000
  buckets : h.buckets < 4294967296

section

variable {h k : RunGameHashMap} {free used : List Nat} {chains : Nat → List Nat} {id : Int} {b x : Nat}

theorem hash_lt (hb : h.hash id = some b) : b < h.buckets := by
  unfold hash at hb
  split at hb
  · cases hb
  · dsimp only at hb
    split at hb
    · rename_i hlt
      cases hb
      exact hlt
    · cases hb

theorem hash_safe (hbuckets : h.buckets < 4294967296) (hsafe : SafeID h.buckets id) :
    ∃ b < h.buckets, h.hash id = some b := by
  obtain ⟨hne, hpos, hcase⟩ := hsafe
  have hmod := Nat.mod_lt id.natAbs hpos
  have hindex : (Int.tmod id h.buckets % 4294967296).toNat < h.buckets := by
    obtain ⟨n, rfl | rfl⟩ := id.eq_nat_or_neg
    · rw [← Int.ofNat_tmod]
      rw [Int.natAbs_natCast] at hmod
      omega
    · rw [Int.neg_tmod, ← Int.ofNat_tmod]
      rw [Int.natAbs_neg, Int.natAbs_natCast] at hmod hcase
      omega
  refine ⟨_, hindex, ?_⟩
  unfold hash
  rw [if_neg (by omega)]
  dsimp only
  rw [if_pos hindex]

theorem Holds.nodup (hh : h.Holds free used chains) : (free ++ used).Nodup :=
  hh.nodes.nodup_iff.mpr List.nodup_range

theorem Holds.chain_length (hh : h.Holds free used chains) (hb : b < h.buckets) :
    (chains b).length < h.totalSize + 1 := by
  have hsub : (chains b).Subperm (List.range h.totalSize) := by
    refine List.subperm_of_subset (hh.chain_nodup b hb) fun x hx => hh.nodes.subset ?_
    exact List.mem_append.mpr (Or.inr ((hh.chain_mem b hb x).mp hx).1)
  have := hsub.length_le
  rw [List.length_range] at this
  omega

/-- A search finds the node of an id, where it is in use, and its place in the chain. -/
theorem Holds.search (hh : h.Holds free used chains) (hb : h.hash id = some b) :
    (∃ before x after, chains b = before ++ x :: after ∧ x ∈ used ∧ (h.game x).robotID = id ∧
        h.search id b = some (.found before.getLast? x)) ∨
      (∀ x ∈ used, (h.game x).robotID ≠ id) ∧ h.search id b = some (.absent (chains b).length) := by
  have hlt := hash_lt hb
  rcases walk_linked (f := fun node => decide ((h.game node).robotID = id)) (p := none) (k := 0)
    (hh.chain_linked b hlt) (hh.chain_length hlt) with ⟨before, x, after, hchain, hhit, hwalk⟩ | ⟨hnone, hwalk⟩
  · have hx : x ∈ used := ((hh.chain_mem b hlt x).mp (by rw [hchain]; simp)).1
    refine Or.inl ⟨before, x, after, hchain, hx, by simpa using hhit, ?_⟩
    rw [Option.or_none] at hwalk
    exact hwalk
  · refine Or.inr ⟨?_, by rw [Nat.zero_add] at hwalk; exact hwalk⟩
    intro x hx hid
    have hmem : x ∈ chains b := (hh.chain_mem b hlt x).mpr ⟨hx, by rw [hid, hb]⟩
    have := hnone x hmem
    simp [hid] at this

/-- The nodes in use hold the sessions of a map from ids to sessions. -/
def Content (h : RunGameHashMap) (used : List Nat) (m : Int → Option RunGame) : Prop :=
  ∀ id g, m id = some g ↔ ∃ x ∈ used, h.game x = g ∧ g.robotID = id

theorem Content.of_mem {m : Int → Option RunGame} (hc : h.Content used m) (hx : x ∈ used) :
    m (h.game x).robotID = some (h.game x) :=
  (hc _ _).mpr ⟨x, hx, rfl, rfl⟩

theorem Content.eq_none {m : Int → Option RunGame} (hc : h.Content used m)
    (hnone : ∀ x ∈ used, (h.game x).robotID ≠ id) : m id = none := by
  cases hm : m id with
  | none => rfl
  | some g =>
    obtain ⟨x, hx, hgame, hid⟩ := (hc id g).mp hm
    exact absurd (hgame ▸ hid) (hnone x hx)

theorem Holds.id_inj (hh : h.Holds free used chains) {y : Nat} (hx : x ∈ used) (hy : y ∈ used)
    (hid : (h.game x).robotID = (h.game y).robotID) : x = y :=
  List.inj_on_of_nodup_map hh.ids hx hy hid

/-- A change of sessions that keeps their ids. -/
theorem Holds.withGame (hh : h.Holds free used chains) {game : Nat → RunGame}
    (hgame : ∀ x, (game x).robotID = (h.game x).robotID) : ({ h with game := game }).Holds free used chains := by
  refine ⟨hh.free_linked, hh.chain_linked, hh.chain_nodup, ?_, hh.nodes, ?_, ?_, hh.useSize, hh.totalSize, hh.buckets⟩
  · intro b hb x
    simp only [hgame]
    exact hh.chain_mem b hb x
  · intro x hx
    simp only [hgame]
    exact hh.hashed x hx
  · simp only [hgame]
    exact hh.ids

theorem Content.touch {m : Int → Option RunGame} (hh : h.Holds free used chains) (hc : h.Content used m)
    (hx : x ∈ used) (now : Int) :
    Content { h with game := Function.update h.game x (setLastTime (h.game x) now) } used
      fun i => if (h.game x).robotID = i then (m i).map fun g => setLastTime g now else m i := by
  intro i g
  dsimp only
  by_cases hi : (h.game x).robotID = i
  · subst hi
    rw [if_pos rfl, hc.of_mem hx, Option.map_some]
    constructor
    · intro hg
      cases hg
      exact ⟨x, hx, by simp, rfl⟩
    · rintro ⟨y, hy, hgame, hid⟩
      by_cases hyx : y = x
      · subst hyx
        rw [Function.update_self] at hgame
        rw [hgame]
      · rw [Function.update_of_ne hyx] at hgame
        subst hgame
        exact absurd (hh.id_inj hy hx hid) hyx
  · rw [if_neg hi, hc]
    constructor
    · rintro ⟨y, hy, hgame, hid⟩
      have hyx : y ≠ x := by
        rintro rfl
        subst hgame
        exact hi hid
      exact ⟨y, hy, by simpa [hyx] using hgame, hid⟩
    · rintro ⟨y, hy, hgame, hid⟩
      have hyx : y ≠ x := by
        rintro rfl
        rw [Function.update_self] at hgame
        subst hgame
        exact hi hid
      exact ⟨y, hy, by simpa [hyx] using hgame, hid⟩

theorem Holds.get {m : Int → Option RunGame} (hh : h.Holds free used chains) (hc : h.Content used m)
    (hb : h.hash id = some b) (updateTime : Bool) (now : Int) :
    ∃ k, h.get id updateTime now =
        some (if updateTime then (m id).map fun g => setLastTime g now else m id, k) ∧
      k.Holds free used chains ∧
      k.Content used (fun i => if updateTime = true ∧ id = i then (m i).map fun g => setLastTime g now else m i) ∧
      k.buckets = h.buckets := by
  unfold RunGameHashMap.get
  rw [hb, Option.bind_some]
  rcases hh.search hb with ⟨before, x, after, hchain, hx, rfl, hfound⟩ | ⟨hnone, habsent⟩
  · rw [hfound, hc.of_mem hx]
    cases updateTime with
    | true =>
      refine ⟨{ h with game := Function.update h.game x (setLastTime (h.game x) now) }, by simp, hh.withGame ?_, ?_, rfl⟩
      · intro y
        by_cases hyx : y = x
        · subst hyx
          simp
        · simp [hyx]
      · simpa using hc.touch hh hx now
    | false => exact ⟨h, by simp, hh, by simpa using hc, rfl⟩
  · rw [habsent, hc.eq_none hnone]
    refine ⟨h, by simp, hh, ?_, rfl⟩
    have hsame : (fun i => if updateTime = true ∧ id = i then (m i).map fun g => setLastTime g now else m i) = m := by
      funext i
      by_cases hi : id = i
      · subst hi
        simp [hc.eq_none hnone]
      · simp [hi]
    rw [hsame]
    exact hc

theorem Holds.free_used (hh : h.Holds free used chains) (hx : x ∈ free) : x ∉ used := by
  intro hmem
  exact (List.disjoint_of_nodup_append hh.nodup) hx hmem

theorem Holds.length_nodes (hh : h.Holds free used chains) : free.length + used.length = h.totalSize := by
  have := hh.nodes.length_eq
  rwa [List.length_append, List.length_range] at this

/-- Each chain has the nodes in use whose id is in its bucket, the inserted node too. -/
theorem Holds.insert_chain_mem {g : RunGame} {y c : Nat} (hh : h.Holds (y :: free) used chains)
    (hb : h.hash g.robotID = some b) (hc : c < h.buckets) (x : Nat) :
    x ∈ Function.update chains b (y :: chains b) c ↔
      x ∈ y :: used ∧ h.hash (Function.update h.game y g x).robotID = some c := by
  have hout : y ∉ chains c := fun hmem => hh.free_used (x := y) (by simp) ((hh.chain_mem c hc y).mp hmem).1
  by_cases hxy : x = y
  · subst hxy
    rw [Function.update_self, hb]
    by_cases hcb : c = b
    · subst hcb
      simp
    · simp [hcb, hout, Ne.symm hcb]
  · rw [Function.update_of_ne hxy, List.mem_cons, or_iff_right hxy]
    by_cases hcb : c = b
    · subst hcb
      rw [Function.update_self, List.mem_cons, or_iff_right hxy]
      exact hh.chain_mem c hc x
    · rw [Function.update_of_ne hcb]
      exact hh.chain_mem c hc x

/-- A free node that is linked into a bucket with a session of a new id. -/
theorem Holds.insert {g : RunGame} {y : Nat} (hh : h.Holds (y :: free) used chains)
    (hb : h.hash g.robotID = some b) (hnew : ∀ x ∈ used, (h.game x).robotID ≠ g.robotID) :
    ({ h with
      lstFree := h.next y
      useSize := incUInt32 h.useSize
      game := Function.update h.game y g
      next := Function.update h.next y (h.bucket b)
      bucket := Function.update h.bucket b (some y) } : RunGameHashMap).Holds free (y :: used)
        (Function.update chains b (y :: chains b)) := by
  have hy := hh.free_used (x := y) (by simp)
  have hlt := hash_lt hb
  have hchain : ∀ c < h.buckets, y ∉ chains c := fun c hc hmem => hy ((hh.chain_mem c hc y).mp hmem).1
  refine ⟨?_, ?_, ?_, ?_, ?_, ?_, ?_, ?_, hh.totalSize, hh.buckets⟩
  · refine hh.free_linked.2.update ?_ _
    have := (List.nodup_append.mp hh.nodup).1
    exact (List.nodup_cons.mp this).1
  · intro c hc
    dsimp only at hc ⊢
    by_cases hcb : c = b
    · subst hcb
      rw [Function.update_self, Function.update_self]
      exact (hh.chain_linked c hc).push (hchain c hc)
    · rw [Function.update_of_ne hcb, Function.update_of_ne hcb]
      exact (hh.chain_linked c hc).update (hchain c hc) _
  · intro c hc
    by_cases hcb : c = b
    · subst hcb
      rw [Function.update_self]
      exact List.nodup_cons.mpr ⟨hchain c hc, hh.chain_nodup c hc⟩
    · rw [Function.update_of_ne hcb]
      exact hh.chain_nodup c hc
  · intro c hc x
    exact hh.insert_chain_mem hb hc x
  · exact List.perm_middle.trans hh.nodes
  · intro x hx
    change (h.hash (Function.update h.game y g x).robotID).isSome
    by_cases hxy : x = y
    · subst hxy
      rw [Function.update_self, hb]
      rfl
    · rw [Function.update_of_ne hxy]
      exact hh.hashed x (List.mem_of_ne_of_mem hxy hx)
  · have hsame : used.map (fun x => (Function.update h.game y g x).robotID) =
        used.map fun x => (h.game x).robotID := by
      refine List.map_congr_left fun x hx => ?_
      rw [Function.update_of_ne (by rintro rfl; exact hy hx)]
    dsimp only
    rw [List.map_cons, hsame, Function.update_self]
    refine List.nodup_cons.mpr ⟨?_, hh.ids⟩
    intro hmem
    obtain ⟨x, hx, hid⟩ := List.mem_map.mp hmem
    exact hnew x hx hid
  · have hlength := hh.length_nodes
    have htotal := hh.totalSize
    have huse := hh.useSize
    rw [List.length_cons] at hlength
    dsimp only
    rw [List.length_cons, incUInt32, if_neg (by omega), huse]

theorem Content.insert {m : Int → Option RunGame} {g : RunGame} {y : Nat} (hc : h.Content used m) (hy : y ∉ used)
    (hnone : m g.robotID = none) (hgame : k.game = Function.update h.game y g) :
    k.Content (y :: used) fun i => if g.robotID = i then some g else m i := by
  intro i g'
  rw [hgame]
  dsimp only
  by_cases hi : g.robotID = i
  · subst hi
    rw [if_pos rfl]
    constructor
    · intro hg
      cases hg
      exact ⟨y, by simp, by simp, rfl⟩
    · rintro ⟨x, hx, hxg, hid⟩
      by_cases hxy : x = y
      · subst hxy
        rw [Function.update_self] at hxg
        rw [hxg]
      · rw [Function.update_of_ne hxy] at hxg
        subst hxg
        rw [← hid, hc.of_mem (List.mem_of_ne_of_mem hxy hx)] at hnone
        cases hnone
  · rw [if_neg hi, hc]
    constructor
    · rintro ⟨x, hx, hxg, hid⟩
      have hxy : x ≠ y := by
        rintro rfl
        exact hy hx
      exact ⟨x, List.mem_cons_of_mem _ hx, by rw [Function.update_of_ne hxy, hxg], hid⟩
    · rintro ⟨x, hx, hxg, hid⟩
      have hxy : x ≠ y := by
        rintro rfl
        rw [Function.update_self] at hxg
        subst hxg
        exact hi hid
      rw [Function.update_of_ne hxy] at hxg
      exact ⟨x, List.mem_of_ne_of_mem hxy hx, hxg, hid⟩

/-- An id is added where it is not there and a node is free. -/
theorem Holds.add {m : Int → Option RunGame} {g : RunGame} (hh : h.Holds free used chains) (hc : h.Content used m)
    (hne : g.robotID ≠ 0) (hb : h.hash g.robotID = some b) (now : Int) :
    ∃ code k free' used' chains', h.add g now = some (code, k) ∧
      (code = 0 ↔ m g.robotID = none ∧ h.useSize < h.totalSize) ∧ k.Holds free' used' chains' ∧
      k.Content used' (fun i => if code = 0 ∧ g.robotID = i then some (setLastTime g now) else m i) ∧
      k.buckets = h.buckets := by
  have hlength := hh.length_nodes
  have huse := hh.useSize
  unfold RunGameHashMap.add
  rw [if_neg hne, hb, Option.bind_some]
  rcases hh.search hb with ⟨before, x, after, hchain, hx, hid, hfound⟩ | ⟨hnone, habsent⟩
  · rw [hfound]
    refine ⟨-9004, h, free, used, chains, rfl, ?_, hh, by simpa using hc, rfl⟩
    have hsome := hc.of_mem hx
    rw [hid] at hsome
    simp [hsome]
  · rw [habsent, Option.map_some]
    dsimp only
    rw [if_neg (by omega)]
    have hmissing := hc.eq_none hnone
    cases free with
    | nil =>
      have hlst : h.lstFree = none := hh.free_linked
      simp only [popNode, hlst, Option.map_none]
      refine ⟨-9006, h, [], used, chains, rfl, ?_, hh, by simpa using hc, rfl⟩
      rw [List.length_nil] at hlength
      simp only [hmissing, true_and]
      omega
    | cons y free =>
      have hlst : h.lstFree = some y := hh.free_linked.1
      have hy := hh.free_used (x := y) (by simp)
      simp only [popNode, hlst, Option.map_some, Function.update_idem]
      refine ⟨0, _, free, y :: used, _, rfl, ?_, hh.insert (g := setLastTime g now) hb hnone, ?_, rfl⟩
      · rw [List.length_cons] at hlength
        simp only [hmissing, true_and, true_iff]
        omega
      · have hmap : (fun i => if (0 : Int) = 0 ∧ g.robotID = i then some (setLastTime g now) else m i) =
            fun i => if (setLastTime g now).robotID = i then some (setLastTime g now) else m i := by
          funext i
          by_cases hi : g.robotID = i <;> simp [hi]
        rw [hmap]
        exact Content.insert (g := setLastTime g now) hc hy hmissing rfl

theorem Holds.chain_disjoint (hh : h.Holds free used chains) {c : Nat} (hb : b < h.buckets) (hc : c < h.buckets)
    (hcb : c ≠ b) (hx : x ∈ chains b) : x ∉ chains c := by
  intro hmem
  have hone := ((hh.chain_mem b hb x).mp hx).2
  have htwo := ((hh.chain_mem c hc x).mp hmem).2
  rw [hone] at htwo
  exact hcb (Option.some.inj htwo).symm

/-- A node taken out of its chain leaves the rest of it linked and all other chains as they are. -/
theorem Holds.unlink {before after : List Nat} (hh : h.Holds free used chains) (hb : b < h.buckets)
    (hchain : chains b = before ++ x :: after) :
    Linked (h.unlink b x before.getLast?).next ((h.unlink b x before.getLast?).bucket b) (before ++ after) ∧
      (∀ c ≠ b, (h.unlink b x before.getLast?).bucket c = h.bucket c) ∧
      ∀ y ∉ chains b, (h.unlink b x before.getLast?).next y = h.next y := by
  have hlinked := hh.chain_linked b hb
  have hnodup := hh.chain_nodup b hb
  rcases before.eq_nil_or_concat with rfl | ⟨bs, y, rfl⟩
  · rw [hchain] at hlinked
    refine ⟨?_, ?_, fun _ _ => rfl⟩
    · simpa [RunGameHashMap.unlink] using hlinked.2
    · intro c hc
      simp [RunGameHashMap.unlink, hc]
  · have hchain' : chains b = bs ++ y :: x :: after := by simpa using hchain
    rw [hchain'] at hlinked hnodup
    rw [List.concat_eq_append, List.getLast?_concat]
    refine ⟨?_, fun _ _ => rfl, ?_⟩
    · simpa [RunGameHashMap.unlink] using hlinked.unlink hnodup
    · intro z hz
      have hzy : z ≠ y := by
        rintro rfl
        rw [hchain'] at hz
        simp at hz
      simp [RunGameHashMap.unlink, hzy]

theorem hash_congr (hbuckets : k.buckets = h.buckets) : k.hash id = h.hash id := by
  unfold hash
  rw [hbuckets]

theorem unlink_fields (h : RunGameHashMap) (index node : Nat) (pre : Option Nat) :
    (h.unlink index node pre).totalSize = h.totalSize ∧ (h.unlink index node pre).buckets = h.buckets ∧
      (h.unlink index node pre).useSize = h.useSize ∧ (h.unlink index node pre).lstFree = h.lstFree ∧
      (h.unlink index node pre).game = h.game := by
  cases pre with
  | none => exact ⟨rfl, rfl, rfl, rfl, rfl⟩
  | some pre => exact ⟨rfl, rfl, rfl, rfl, rfl⟩

/-- The map after a found node is taken out of its chain and given back. -/
structure Removed (h : RunGameHashMap) (index node : Nat) (pre : Option Nat) (k : RunGameHashMap) : Prop where
  totalSize : k.totalSize = h.totalSize
  buckets : k.buckets = h.buckets
  useSize : k.useSize = decUInt32 h.useSize
  lstFree : k.lstFree = some node
  bucket : k.bucket = (h.unlink index node pre).bucket
  next : k.next = Function.update (h.unlink index node pre).next node h.lstFree
  game : k.game = Function.update h.game node { h.game node with robotID := 0 }

theorem removed_unlink (h : RunGameHashMap) (index node : Nat) (pre : Option Nat) :
    h.Removed index node pre
      (pushNode
        { h.unlink index node pre with
          game := Function.update (h.unlink index node pre).game node
            { (h.unlink index node pre).game node with robotID := 0 }
          next := Function.update (h.unlink index node pre).next node none } node) := by
  obtain ⟨htotal, hbuckets, huse, hfree, hgame⟩ := unlink_fields h index node pre
  refine ⟨?_, ?_, ?_, ?_, ?_, ?_, ?_⟩
  · rw [pushNode_totalSize, htotal]
  · rw [pushNode_buckets, hbuckets]
  · rw [pushNode_useSize, huse]
  · rw [pushNode_lstFree]
  · rw [pushNode_bucket]
  · rw [pushNode_next, Function.update_idem, hfree]
  · rw [pushNode_game, hgame]

theorem mem_without_iff {before after : List Nat} {y : Nat} (hnodup : (before ++ x :: after).Nodup) :
    y ∈ before ++ after ↔ y ≠ x ∧ y ∈ before ++ x :: after := by
  constructor
  · intro hy
    refine ⟨?_, ?_⟩
    · rintro rfl
      exact (List.nodup_middle.mp hnodup).notMem hy
    · simp only [List.mem_append, List.mem_cons] at hy ⊢
      tauto
  · rintro ⟨hyx, hy⟩
    simp only [List.mem_append, List.mem_cons] at hy ⊢
    tauto

/-- Each chain is linked without the node that is given back. -/
theorem Holds.removed_linked {before after : List Nat} {c : Nat} (hh : h.Holds free used chains) (hb : b < h.buckets)
    (hc : c < h.buckets) (hchain : chains b = before ++ x :: after) (hk : h.Removed b x before.getLast? k) :
    Linked k.next (k.bucket c) (Function.update chains b (before ++ after) c) := by
  obtain ⟨hlinked, hbucket, hnext⟩ := hh.unlink hb hchain
  have hnodup := hchain ▸ hh.chain_nodup b hb
  have hmem : x ∈ chains b := by
    rw [hchain]
    simp
  rw [hk.next, hk.bucket]
  by_cases hcb : c = b
  · subst hcb
    rw [Function.update_self]
    exact hlinked.update (List.nodup_middle.mp hnodup).notMem _
  · rw [Function.update_of_ne hcb, hbucket c hcb]
    refine Linked.update ((hh.chain_linked c hc).congr fun y hy => hnext y ?_) ?_ _
    · exact hh.chain_disjoint hc hb (Ne.symm hcb) hy
    · exact hh.chain_disjoint hb hc hcb hmem

/-- Each chain has the other nodes in use whose id is in its bucket. -/
theorem Holds.removed_chain_mem {before after : List Nat} {c : Nat} (hh : h.Holds free used chains)
    (hb : b < h.buckets) (hc : c < h.buckets) (hchain : chains b = before ++ x :: after) (y : Nat) :
    y ∈ Function.update chains b (before ++ after) c ↔ (y ≠ x ∧ y ∈ used) ∧
      h.hash (Function.update h.game x { h.game x with robotID := 0 } y).robotID = some c := by
  have hnodup := hchain ▸ hh.chain_nodup b hb
  have hmem : x ∈ chains b := by
    rw [hchain]
    simp
  by_cases hyx : y = x
  · subst hyx
    by_cases hcb : c = b
    · subst hcb
      simp [(List.nodup_middle.mp hnodup).notMem]
    · simp [hcb, hh.chain_disjoint hb hc hcb hmem]
  · rw [Function.update_of_ne hyx, and_iff_right hyx]
    by_cases hcb : c = b
    · subst hcb
      rw [Function.update_self, mem_without_iff hnodup, and_iff_right hyx, ← hchain]
      exact hh.chain_mem c hc y
    · rw [Function.update_of_ne hcb]
      exact hh.chain_mem c hc y

theorem Holds.removed {before after : List Nat} (hh : h.Holds free used chains) (hb : b < h.buckets)
    (hchain : chains b = before ++ x :: after) (hx : x ∈ used) (hk : h.Removed b x before.getLast? k) :
    k.Holds (x :: free) (used.erase x) (Function.update chains b (before ++ after)) := by
  obtain ⟨-, -, hnext⟩ := hh.unlink hb hchain
  have hused : used.Nodup := (List.nodup_append.mp hh.nodup).2.1
  refine ⟨?_, ?_, ?_, ?_, ?_, ?_, ?_, ?_, ?_, ?_⟩
  · rw [hk.next, hk.lstFree]
    refine Linked.push (hh.free_linked.congr fun y hy => hnext y ?_) ?_
    · intro hin
      exact hh.free_used hy ((hh.chain_mem b hb y).mp hin).1
    · intro hin
      exact hh.free_used hin hx
  · intro c hc
    exact hh.removed_linked hb (hk.buckets ▸ hc) hchain hk
  · intro c hc
    rw [hk.buckets] at hc
    by_cases hcb : c = b
    · subst hcb
      rw [Function.update_self]
      exact (List.nodup_middle.mp (hchain ▸ hh.chain_nodup c hc)).of_cons
    · rw [Function.update_of_ne hcb]
      exact hh.chain_nodup c hc
  · intro c hc y
    rw [hash_congr hk.buckets, hk.game, hused.mem_erase_iff]
    exact hh.removed_chain_mem hb (hk.buckets ▸ hc) hchain y
  · rw [hk.totalSize]
    refine List.Perm.trans ?_ hh.nodes
    refine List.Perm.trans ?_ ((List.perm_cons_erase hx).symm.append_left free)
    exact List.perm_middle.symm
  · intro y hy
    obtain ⟨hyx, hy⟩ := hused.mem_erase_iff.mp hy
    rw [hash_congr hk.buckets, hk.game, Function.update_of_ne hyx]
    exact hh.hashed y hy
  · have hsame : (used.erase x).map (fun y => (Function.update h.game x { h.game x with robotID := 0 } y).robotID) =
        (used.erase x).map fun y => (h.game y).robotID := by
      refine List.map_congr_left fun y hy => ?_
      rw [Function.update_of_ne (hused.mem_erase_iff.mp hy).1]
    rw [hk.game, hsame]
    exact hh.ids.sublist (List.erase_sublist.map _)
  · have hlength := List.length_pos_of_mem hx
    have huse := hh.useSize
    have htotal := hh.length_nodes
    have hle := hh.totalSize
    rw [hk.useSize, List.length_erase_of_mem hx, decUInt32, if_neg (by omega), huse]
  · rw [hk.totalSize]
    exact hh.totalSize
  · rw [hk.buckets]
    exact hh.buckets

theorem Content.removed {m : Int → Option RunGame} {pre : Option Nat} (hh : h.Holds free used chains)
    (hc : h.Content used m) (hx : x ∈ used) (hk : h.Removed b x pre k) :
    k.Content (used.erase x) fun i => if (h.game x).robotID = i then none else m i := by
  have hused : used.Nodup := (List.nodup_append.mp hh.nodup).2.1
  intro i g
  dsimp only
  rw [hk.game]
  by_cases hi : (h.game x).robotID = i
  · subst hi
    rw [if_pos rfl]
    constructor
    · intro hg
      cases hg
    · rintro ⟨y, hy, hgame, hid⟩
      obtain ⟨hyx, hy⟩ := hused.mem_erase_iff.mp hy
      rw [Function.update_of_ne hyx] at hgame
      subst hgame
      exact absurd (hh.id_inj hy hx hid) hyx
  · rw [if_neg hi, hc]
    constructor
    · rintro ⟨y, hy, hgame, hid⟩
      have hyx : y ≠ x := by
        rintro rfl
        subst hgame
        exact hi hid
      exact ⟨y, hused.mem_erase_iff.mpr ⟨hyx, hy⟩, by rw [Function.update_of_ne hyx, hgame], hid⟩
    · rintro ⟨y, hy, hgame, hid⟩
      obtain ⟨hyx, hy⟩ := hused.mem_erase_iff.mp hy
      rw [Function.update_of_ne hyx] at hgame
      exact ⟨y, hy, hgame, hid⟩

theorem Holds.del {m : Int → Option RunGame} (hh : h.Holds free used chains) (hc : h.Content used m)
    (hb : h.hash id = some b) :
    ∃ code k free' used' chains', h.del id = some (code, k) ∧ (code = 0 ↔ (m id).isSome) ∧
      k.Holds free' used' chains' ∧ k.Content used' (fun i => if id = i then none else m i) ∧
      k.buckets = h.buckets := by
  unfold RunGameHashMap.del
  rw [hb, Option.bind_some]
  rcases hh.search hb with ⟨before, x, after, hchain, hx, rfl, hfound⟩ | ⟨hnone, habsent⟩
  · rw [hfound, hc.of_mem hx]
    have hremoved := h.removed_unlink b x before.getLast?
    exact ⟨0, _, x :: free, used.erase x, _, rfl, by simp, hh.removed (hash_lt hb) hchain hx hremoved,
      hc.removed hh hx hremoved, hremoved.buckets⟩
  · have hmissing := hc.eq_none hnone
    rw [habsent, hmissing]
    refine ⟨-99, h, free, used, chains, rfl, by simp, hh, ?_, rfl⟩
    have hsame : (fun i => if id = i then none else m i) = m := by
      funext i
      by_cases hi : id = i
      · subst hi
        simp [hmissing]
      · simp [hi]
    rw [hsame]
    exact hc

theorem foldl_pushNode (hfree : Linked h.next h.lstFree free) (nodes : List Nat) (hnodup : nodes.Nodup)
    (hout : ∀ x ∈ nodes, x ∉ free) :
    Linked (nodes.foldl pushNode h).next (nodes.foldl pushNode h).lstFree (nodes.reverse ++ free) ∧
      (nodes.foldl pushNode h).totalSize = h.totalSize ∧ (nodes.foldl pushNode h).buckets = h.buckets ∧
      (nodes.foldl pushNode h).bucket = h.bucket ∧ (nodes.foldl pushNode h).game = h.game := by
  induction nodes generalizing h free with
  | nil => exact ⟨hfree, rfl, rfl, rfl, rfl⟩
  | cons x rest ih =>
    obtain ⟨hx, hrest⟩ := List.nodup_cons.mp hnodup
    have hpush : Linked (h.pushNode x).next (h.pushNode x).lstFree (x :: free) := by
      rw [pushNode_next, pushNode_lstFree]
      exact hfree.push (hout x (by simp))
    obtain ⟨hlinked, htotal, hbuckets, hbucket, hgame⟩ := ih hpush hrest (by
      intro y hy hmem
      rcases List.mem_cons.mp hmem with rfl | hmem
      · exact hx hy
      · exact hout y (List.mem_cons_of_mem _ hy) hmem)
    rw [List.foldl_cons, List.reverse_cons, List.append_assoc]
    rw [pushNode_totalSize] at htotal
    rw [pushNode_buckets] at hbuckets
    rw [pushNode_bucket] at hbucket
    rw [pushNode_game] at hgame
    exact ⟨hlinked, htotal, hbuckets, hbucket, hgame⟩

/-- A map without sessions. -/
theorem holds_empty (hfree : Linked h.next h.lstFree free) (hnodes : free.Perm (List.range h.totalSize))
    (hbucket : ∀ b, h.bucket b = none) (huse : h.useSize = 0) (htotal : h.totalSize ≤ 500000)
    (hbuckets : h.buckets < 4294967296) : h.Holds free [] fun _ => [] := by
  refine ⟨hfree, ?_, ?_, ?_, ?_, ?_, ?_, huse, htotal, hbuckets⟩
  · intro b _
    exact hbucket b
  · intro b _
    exact List.nodup_nil
  · simp
  · rwa [List.append_nil]
  · simp
  · exact List.nodup_nil

theorem init_holds {size buckets : Nat} (hstart : HashMapStart size buckets h) :
    ∃ free, h.Holds free [] fun _ => [] := by
  obtain ⟨hsize, hbuckets, games, rfl⟩ := hstart
  unfold init
  split
  · exact ⟨[], holds_empty rfl (by simp [unset]) (fun _ => rfl) rfl (by simp [unset]) (by simp [unset])⟩
  split
  · exact ⟨[], holds_empty rfl (by simp [unset]) (fun _ => rfl) rfl (by simp [unset]) (by simp [unset])⟩
  rename_i hlimit _
  have hnil : Linked (unset games).next (unset games).lstFree [] := rfl
  have hfold := foldl_pushNode (h := { unset games with totalSize := size, buckets := buckets }) hnil
    (List.range size) List.nodup_range (by simp)
  obtain ⟨hlinked, htotal, hbuckets', hbucket, -⟩ := hfold
  rw [List.append_nil] at hlinked
  refine ⟨(List.range size).reverse, holds_empty hlinked ?_ ?_ rfl ?_ ?_⟩
  · dsimp only
    rw [htotal]
    exact List.reverse_perm _
  · intro b
    dsimp only
    rw [hbucket]
    rfl
  · dsimp only
    rw [htotal]
    dsimp only
    omega
  · dsimp only
    rw [hbuckets']
    exact hbuckets

end

end RunGameHashMap

def MapAnswer (older : HashMapTrace) (t : Transition RunGameHashMap HashMapEvent) : Prop :=
  match t.event with
  | .add g _ result => result = 0 ↔ stored older g.robotID = none ∧ t.pre.useSize < t.pre.totalSize
  | .get id updateTime now result =>
    result = if updateTime then (stored older id).map fun g => RunGameHashMap.setLastTime g now else stored older id
  | .del id result => result = 0 ↔ (stored older id).isSome

/-- Every node lies in one chain or in the free list. -/
def Partitioned (h : RunGameHashMap) : Prop :=
  ∃ (free : List Nat) (chains : Nat → List Nat), Linked h.next h.lstFree free ∧ free.Nodup ∧
    (∀ b < h.buckets, Linked h.next (h.bucket b) (chains b) ∧ (chains b).Nodup) ∧
    ∀ x < h.totalSize,
      (x ∈ free ∧ ∀ b < h.buckets, x ∉ chains b) ∨
        (x ∉ free ∧ ∃ b < h.buckets, x ∈ chains b ∧ ∀ c < h.buckets, x ∈ chains c → c = b)

/-- The hash map after a run is the finite map of the sessions stored in it. -/
structure FiniteMap (trace : HashMapTrace) (h : RunGameHashMap) : Prop where
  answers : Guarded MapAnswer trace
  nodes : Partitioned h
  useSize : ∃ ids : List Int, ids.Nodup ∧ (∀ id, id ∈ ids ↔ (stored trace id).isSome) ∧ h.useSize = ids.length
  indices : ∀ id, SafeID h.buckets id → ∃ b < h.buckets, h.hash id = some b
  gets : ∀ id, SafeID h.buckets id → ∀ now, ∃ k, h.get id false now = some (stored trace id, k)
  adds : ∀ g : RunGame, SafeID h.buckets g.robotID → ∀ now, (h.add g now).isSome
  dels : ∀ id, SafeID h.buckets id → (h.del id).isSome

section

open RunGameHashMap

variable {h : RunGameHashMap} {trace : HashMapTrace} {free used : List Nat} {chains : Nat → List Nat}

theorem RunGameHashMap.Holds.partitioned (hh : h.Holds free used chains) : Partitioned h := by
  have hnodup := List.nodup_append.mp hh.nodup
  refine ⟨free, chains, hh.free_linked, hnodup.1, ?_, ?_⟩
  · intro b hb
    exact ⟨hh.chain_linked b hb, hh.chain_nodup b hb⟩
  · intro x hx
    rcases List.mem_append.mp (hh.nodes.mem_iff.mpr (List.mem_range.mpr hx)) with hfree | hused
    · left
      refine ⟨hfree, ?_⟩
      intro b hb hmem
      exact hh.free_used hfree ((hh.chain_mem b hb x).mp hmem).1
    · right
      obtain ⟨b, hb⟩ := Option.isSome_iff_exists.mp (hh.hashed x hused)
      have hlt := hash_lt hb
      refine ⟨fun hfree => hh.free_used hfree hused, b, hlt, (hh.chain_mem b hlt x).mpr ⟨hused, hb⟩, ?_⟩
      intro c hc hmem
      have hsame := ((hh.chain_mem c hc x).mp hmem).2
      rw [hb] at hsame
      exact (Option.some.inj hsame).symm

theorem RunGameHashMap.Holds.finiteMap (hh : h.Holds free used chains) (hc : h.Content used (stored trace))
    (hanswers : Guarded MapAnswer trace) : FiniteMap trace h := by
  refine ⟨hanswers, hh.partitioned, ?_, ?_, ?_, ?_, ?_⟩
  · refine ⟨used.map fun x => (h.game x).robotID, hh.ids, ?_, by rw [List.length_map, hh.useSize]⟩
    intro id
    rw [List.mem_map, Option.isSome_iff_exists]
    constructor
    · rintro ⟨x, hx, rfl⟩
      exact ⟨_, hc.of_mem hx⟩
    · rintro ⟨g, hg⟩
      obtain ⟨x, hx, hgame, hid⟩ := (hc id g).mp hg
      exact ⟨x, hx, by rw [hgame, hid]⟩
  · intro id hsafe
    exact hash_safe hh.buckets hsafe
  · intro id hsafe now
    obtain ⟨b, -, hb⟩ := hash_safe hh.buckets hsafe
    obtain ⟨k, hget, -⟩ := hh.get hc hb false now
    exact ⟨k, hget⟩
  · intro g hsafe now
    obtain ⟨b, -, hb⟩ := hash_safe hh.buckets hsafe
    obtain ⟨code, k, _, _, _, hadd, -⟩ := hh.add hc hsafe.1 hb now
    rw [hadd]
    rfl
  · intro id hsafe
    obtain ⟨b, -, hb⟩ := hash_safe hh.buckets hsafe
    obtain ⟨code, k, _, _, _, hdel, -⟩ := hh.del hc hb
    rw [hdel]
    rfl

/-- A call with a safe id changes the map as `stored` says. -/
theorem hashMap_step {t : Transition RunGameHashMap HashMapEvent} (hstep : HashMapStep t.pre t.event t.post)
    (hsafe : SafeID t.pre.buckets t.event.id) (hh : t.pre.Holds free used chains)
    (hc : t.pre.Content used (stored trace)) :
    (∃ free' used' chains', t.post.Holds free' used' chains' ∧ t.post.Content used' (stored (t :: trace))) ∧
      MapAnswer trace t := by
  obtain ⟨h, e, k⟩ := t
  obtain ⟨b, -, hb⟩ := hash_safe hh.buckets hsafe
  cases e with
  | add g now result =>
    obtain ⟨code, k', free', used', chains', hadd, hcode, hholds, hcontent, -⟩ := hh.add hc hsafe.1 hb now
    obtain ⟨hresult, hnext⟩ := Prod.mk.inj (Option.some.inj (hstep.symm.trans hadd))
    dsimp only at hresult hnext
    subst hnext
    subst hresult
    exact ⟨⟨free', used', chains', hholds, hcontent⟩, hcode⟩
  | get id updateTime now result =>
    obtain ⟨k', hget, hholds, hcontent, -⟩ := hh.get hc hb updateTime now
    obtain ⟨hresult, hnext⟩ := Prod.mk.inj (Option.some.inj (hstep.symm.trans hget))
    dsimp only at hresult hnext
    subst hnext
    exact ⟨⟨free, used, chains, hholds, hcontent⟩, hresult⟩
  | del id result =>
    obtain ⟨code, k', free', used', chains', hdel, hcode, hholds, hcontent, -⟩ := hh.del hc hb
    obtain ⟨hresult, hnext⟩ := Prod.mk.inj (Option.some.inj (hstep.symm.trans hdel))
    dsimp only at hresult hnext
    subst hnext
    subst hresult
    exact ⟨⟨free', used', chains', hholds, hcontent⟩, hcode⟩

/-- In a run whose ids are all safe, the hash map is a finite map. -/
theorem finiteMap_run {size buckets : Nat} (run : HashMapRun size buckets trace h) (safe : Guarded SafeCall trace) :
    FiniteMap trace h := by
  obtain ⟨⟨free, used, chains, hh, hc⟩, hanswers⟩ :
      (∃ free used chains, h.Holds free used chains ∧ h.Content used (stored trace)) ∧ Guarded MapAnswer trace := by
    refine run.invariant_trace
      (P := fun trace h =>
        (∃ free used chains, h.Holds free used chains ∧ h.Content used (stored trace)) ∧ Guarded MapAnswer trace)
      safe ?_ ?_
    · intro s hstart
      obtain ⟨free, hh⟩ := init_holds hstart
      exact ⟨⟨free, [], _, hh, by simp [Content, stored]⟩, trivial⟩
    · rintro older t hstep hsafe ⟨⟨free, used, chains, hh, hc⟩, hanswers⟩
      obtain ⟨hnext, hanswer⟩ := hashMap_step hstep hsafe hh hc
      exact ⟨hnext, hanswer, hanswers⟩
  exact hh.finiteMap hc hanswers

end

inductive HashMapCall
  | add (id : Int)
  | get (id : Int)
  | del (id : Int)

def RunGameHashMap.perform (h : RunGameHashMap) : HashMapCall → Option (HashMapEvent × RunGameHashMap)
  | .add id => (h.add (newSession id) 7).map fun (result, k) => (.add (newSession id) 7 result, k)
  | .get id => (h.get id true 8).map fun (result, k) => (.get id true 8 result, k)
  | .del id => (h.del id).map fun (result, k) => (.del id result, k)

theorem RunGameHashMap.perform_step (h : RunGameHashMap) (call : HashMapCall) (e : HashMapEvent) (k : RunGameHashMap)
    (hcall : h.perform call = some (e, k)) : HashMapStep h e k := by
  cases call with
  | add id | get id | del id =>
    obtain ⟨⟨result, k'⟩, hresult, hcall⟩ := Option.map_eq_some_iff.mp hcall
    cases hcall
    exact hresult

def newHashMap (size buckets : Nat) : RunGameHashMap := (RunGameHashMap.init size buckets fun _ => newSession 0).2

/-- The map after calls on a new one, or the new one where these cannot be made. -/
def hashMapCalls (size buckets : Nat) (calls : List HashMapCall) : HashMapTrace × RunGameHashMap :=
  (performAll RunGameHashMap.perform calls ([], newHashMap size buckets)).getD ([], newHashMap size buckets)

theorem hashMapCalls_run {size buckets : Nat} (hsize : size < 4294967296) (hbuckets : buckets < 4294967296)
    (calls : List HashMapCall) :
    HashMapRun size buckets (hashMapCalls size buckets calls).1 (hashMapCalls size buckets calls).2 := by
  have start : HashMapRun size buckets [] (newHashMap size buckets) := .start ⟨hsize, hbuckets, _, rfl⟩
  unfold hashMapCalls
  cases h : performAll RunGameHashMap.perform calls ([], newHashMap size buckets) with
  | none => exact start
  | some last => exact StepRun.performAll RunGameHashMap.perform_step start h

instance (buckets : Nat) (id : Int) : Decidable (SafeID buckets id) := inferInstanceAs (Decidable (_ ∧ _ ∧ (_ ∨ _ ∨ _)))

instance (older : HashMapTrace) (t : Transition RunGameHashMap HashMapEvent) : Decidable (SafeCall older t) :=
  inferInstanceAs (Decidable (SafeID _ _))

/-- Two ids of one bucket and a negative one of another, in a map that is full with three sessions. -/
def collidingCalls : List HashMapCall := [.add 5, .add 8, .add (-6), .add 11, .get 5, .del 5, .add 11, .get 8]

theorem finiteMap_collidingCalls :
    (hashMapCalls 3 3 collidingCalls).2.useSize = 3 ∧
      (stored (hashMapCalls 3 3 collidingCalls).1 5).isSome = false ∧
      (stored (hashMapCalls 3 3 collidingCalls).1 11).isSome = true ∧
      FiniteMap (hashMapCalls 3 3 collidingCalls).1 (hashMapCalls 3 3 collidingCalls).2 :=
  ⟨by decide +kernel, by decide +kernel, by decide +kernel,
    finiteMap_run (hashMapCalls_run (by decide) (by decide) collidingCalls) (by decide +kernel)⟩

/-- A negative id is looked up behind the last bucket. -/
theorem negative_id_out_of_range :
    ∃ trace h, HashMapRun 3 3 trace h ∧ (Int.tmod (-1) h.buckets % 4294967296).toNat = 4294967295 ∧
      h.buckets ≤ 4294967295 ∧ h.hash (-1) = none ∧ h.get (-1) true 0 = none ∧ h.add (newSession (-1)) 0 = none :=
  ⟨_, _, hashMapCalls_run (by decide) (by decide) [], by decide +kernel, by decide +kernel, by decide +kernel,
    rfl, rfl⟩

end MasterAI
