import MasterAI.BettingDag
import MasterAI.CfrValues
import MasterAI.IndependentSteps

namespace MasterAI

/-- The street values and the readers, as `Read` and `ReadSingleFile` use them. -/
@[ext] structure ReadTables where
  streetValues : Nat → Option CFRStreetValues
  readers : Nat → Nat → Option Reader

namespace ReadTables

/-- The values of a player on a street and the reader of their file are replaced. -/
def store (v : ReadTables) (p st : Nat) (row : ValueRow) (reader : Reader) : ReadTables where
  streetValues :=
    Function.update v.streetValues st
      ((v.streetValues st).map fun table => { table with data := Function.update table.data p row })
  readers := Function.update v.readers p (Function.update (v.readers p) st (some reader))

/-- A call of `ReadNode` where the street has values; nothing where the program exits. -/
def readNode (v : ReadTables) (p st : Nat) (node : Node) : Option ReadTables :=
  match v.streetValues st, v.readers p st with
  | none, _ => some v
  | some _, none => none
  | some table, some reader =>
    (table.readNode node reader).map fun (table, reader) =>
      { streetValues := Function.update v.streetValues st (some table)
        readers := Function.update v.readers p (Function.update (v.readers p) st (some reader)) }

end ReadTables

namespace Node

def street : Node → Nat
  | mk _ street _ _ => street

mutual

def readSingleFile (p st : Nat) : Node → ReadTables → Option ReadTables
  | mk id street playerActing succs, v =>
    if succs = [] then some v
    else
      (if playerActing = p ∧ street = st then v.readNode p st (mk id street playerActing succs) else some v).bind
        (readSingleFiles p st succs)

def readSingleFiles (p st : Nat) : List Node → ReadTables → Option ReadTables
  | [], v => some v
  | succ :: rest, v => (succ.readSingleFile p st v).bind (readSingleFiles p st rest)

end

mutual

def read (p : Nat) : Node → ReadTables → Option ReadTables
  | mk id street playerActing succs, v =>
    if succs = [] then some v
    else
      (if playerActing = p then v.readNode p street (mk id street playerActing succs) else some v).bind
        (readSuccs p succs)

def readSuccs (p : Nat) : List Node → ReadTables → Option ReadTables
  | [], v => some v
  | succ :: rest, v => (succ.read p v).bind (readSuccs p rest)

end

mutual

/-- All visits of nonterminals, in preorder. -/
def visits : Node → List Node
  | mk id street playerActing succs =>
    if succs = [] then [] else mk id street playerActing succs :: succVisits succs

def succVisits : List Node → List Node
  | [] => []
  | succ :: rest => succ.visits ++ succVisits rest

end

end Node

/-- `ReadSingleFile` for files of players and streets, one after another. -/
def Node.readFiles (root : Node) (files : List (Nat × Nat)) (v : ReadTables) : Option ReadTables :=
  files.foldlM (fun v file => root.readSingleFile file.1 file.2 v) v

/-- `Read` for all players. -/
def Node.readPlayers (root : Node) (numPlayers : Nat) (v : ReadTables) : Option ReadTables :=
  (List.range numPlayers).foldlM (fun v p => root.read p v) v

/-- A betting tree whose nodes may be shared. Nonterminals are identified by street, acting player and id. -/
structure NodeDag (maxStreet : Nat) (α : Type*) where
  id : α → Nat
  street : α → Nat
  playerActing : α → Nat
  succs : α → List α
  root : α
  connected : ∀ a, Relation.ReflTransGen (fun a b => b ∈ succs a) root a
  acyclic : WellFounded fun b a => b ∈ succs a
  street_le : ∀ a, succs a ≠ [] → street a ≤ maxStreet
  identified : ∀ a b, succs a ≠ [] → succs b ≠ [] → street a = street b → playerActing a = playerActing b →
    id a = id b → a = b

namespace NodeDag

variable {maxStreet : Nat} {α : Type*} (T : NodeDag maxStreet α)

/-- A node as its pointer shows it. -/
def node (a : α) : Node :=
  .mk (T.id a) (T.street a) (T.playerActing a) ((T.succs a).attach.map fun b => node b.1)
termination_by T.acyclic.wrap a
decreasing_by exact b.2

/-- The visits of the nonterminals from a node on, in preorder. -/
def preorder (a : α) : List α :=
  if T.succs a = [] then [] else a :: (T.succs a).attach.flatMap fun b => preorder b.1
termination_by T.acyclic.wrap a
decreasing_by exact b.2

/-- A nonterminal of a player on a street that gets values. -/
def HasBlock (p st : Nat) (a : α) : Prop := T.playerActing a = p ∧ T.street a = st ∧ 1 < (T.succs a).length

instance (p st : Nat) : DecidablePred (T.HasBlock p st) := fun _ => inferInstanceAs (Decidable (_ ∧ _ ∧ _))

/-- These nonterminals in the order of their first visits. -/
def blocks [DecidableEq α] (p st : Nat) : List α := ((T.preorder T.root).filter (T.HasBlock p st)).eraseDups

end NodeDag

/-- The values of a node are read from the file and stored, whatever was stored for it. -/
def readBlock (numHoldings : Nat) (type : CFRValueType) (state : ValueRow × Reader) (node : Node) :
    Option (ValueRow × Reader) :=
  if node.numActions numHoldings < 0 then none
  else
    (state.2.readValues type (node.numActions numHoldings).toNat).map fun (values, r) =>
      (Function.update state.1 node.id (some values), r)

namespace Node

/-- The player and the street whose file a node has its values in. -/
def key (node : Node) : Nat × Nat := (node.playerActing, node.street)

end Node

namespace NodeDag

variable {maxStreet : Nat} {α : Type*} [DecidableEq α] (T : NodeDag maxStreet α)

/-- A reader stands where its file has the bytes of all blocks of a player and a street, for arrays that can be
allocated. -/
structure FileHolds (p st numHoldings : Nat) (type : CFRValueType) (reader : Reader) (pos : Nat) : Prop where
  at_ : ReaderAt reader pos
  sizes : ∀ a ∈ T.blocks p st, 0 ≤ (T.node a).numActions numHoldings
  bytes : pos + valueCount numHoldings ((T.blocks p st).map T.node) * type.kind.width ≤ reader.file.length

/-- The blocks are those of the file, one behind the other, and the reader has moved on by their bytes. -/
structure BlocksRead (p st numHoldings : Nat) (type : CFRValueType) (reader : Reader) (pos : Nat) (row : ValueRow)
    (reader' : Reader) : Prop where
  block : ∀ before a after, T.blocks p st = before ++ a :: after →
    row (T.id a) = some (decodeFrom type reader.file
      (pos + valueCount numHoldings (before.map T.node) * type.kind.width) ((T.node a).numActions numHoldings).toNat)
  others : ∀ nt, (∀ a ∈ T.blocks p st, T.id a ≠ nt) → row nt = none
  at_ : ReaderAt reader' (pos + valueCount numHoldings ((T.blocks p st).map T.node) * type.kind.width)
  file_eq : reader'.file = reader.file

end NodeDag

namespace ReadTables

/-- The part of the tables that the file of a player and a street is read into, with the reader of the file. -/
def view (v : ReadTables) (p st : Nat) : Option (Nat × CFRValueType × ValueRow) × Option Reader :=
  ((v.streetValues st).map fun table => (table.numHoldings, table.myType, table.data p), v.readers p st)

def readKey (v : ReadTables) (node : Node) : Option ReadTables := v.readNode node.playerActing node.street node

/-- What a call of `ReadNode` stores: no result where the program exits, and nothing where the street has no
values. -/
def stored (v : ReadTables) (node : Node) : Option (Option (ValueRow × Reader)) :=
  match v.streetValues node.street, v.readers node.playerActing node.street with
  | none, _ => some none
  | some _, none => none
  | some table, some reader =>
    (readRow table.numHoldings table.myType node (table.data node.playerActing) reader).map some

def put (v : ReadTables) (node : Node) : Option (ValueRow × Reader) → ReadTables
  | none => v
  | some (row, reader) => v.store node.playerActing node.street row reader

end ReadTables

section

variable {v w : ReadTables} {p st p' st' : Nat} {node b c : Node}

mutual

theorem Node.readSingleFile_eq (node : Node) (v : ReadTables) :
    node.readSingleFile p st v = (node.visits.filter (Node.key · = (p, st))).foldlM ReadTables.readKey v := by
  cases node with
  | mk id street playerActing succs =>
    rw [Node.readSingleFile, Node.visits]
    split
    next => rfl
    next =>
      have hsuccs : Node.readSingleFiles p st succs = _ := funext (Node.readSingleFiles_eq succs)
      rw [hsuccs]
      by_cases hkey : playerActing = p ∧ street = st
      · obtain ⟨rfl, rfl⟩ := hkey
        rw [if_pos ⟨rfl, rfl⟩, List.filter_cons_of_pos (by simp [Node.key, Node.playerActing, Node.street])]
        rfl
      · rw [if_neg hkey, List.filter_cons_of_neg (by simpa [Node.key, Node.playerActing, Node.street] using hkey)]
        rfl

theorem Node.readSingleFiles_eq (succs : List Node) (v : ReadTables) :
    Node.readSingleFiles p st succs v =
      ((Node.succVisits succs).filter (Node.key · = (p, st))).foldlM ReadTables.readKey v := by
  cases succs with
  | nil => rfl
  | cons succ rest =>
    rw [Node.readSingleFiles, Node.succVisits, List.filter_append, List.foldlM_append,
      ← funext (Node.readSingleFiles_eq rest), Node.readSingleFile_eq succ]
    rfl

end

mutual

theorem Node.read_eq (node : Node) (v : ReadTables) :
    node.read p v = (node.visits.filter (Node.playerActing · = p)).foldlM ReadTables.readKey v := by
  cases node with
  | mk id street playerActing succs =>
    rw [Node.read, Node.visits]
    split
    next => rfl
    next =>
      have hsuccs : Node.readSuccs p succs = _ := funext (Node.readSuccs_eq succs)
      rw [hsuccs]
      by_cases hplayer : playerActing = p
      · subst hplayer
        rw [if_pos rfl, List.filter_cons_of_pos (by simp [Node.playerActing])]
        rfl
      · rw [if_neg hplayer, List.filter_cons_of_neg (by simp [Node.playerActing, hplayer])]
        rfl

theorem Node.readSuccs_eq (succs : List Node) (v : ReadTables) :
    Node.readSuccs p succs v =
      ((Node.succVisits succs).filter (Node.playerActing · = p)).foldlM ReadTables.readKey v := by
  cases succs with
  | nil => rfl
  | cons succ rest =>
    rw [Node.readSuccs, Node.succVisits, List.filter_append, List.foldlM_append, ← funext (Node.readSuccs_eq rest),
      Node.read_eq succ]
    rfl

end

mutual

theorem Node.readCalls_eq (node : Node) : node.readCalls p st = node.visits.filter (Node.key · = (p, st)) := by
  cases node with
  | mk id street playerActing succs =>
    rw [Node.readCalls, Node.visits, Node.succCalls_eq succs]
    split
    next => rfl
    next => by_cases hkey : playerActing = p ∧ street = st <;> simp [Node.key, Node.playerActing, Node.street, hkey]

theorem Node.succCalls_eq (succs : List Node) :
    Node.succCalls p st succs = (Node.succVisits succs).filter (Node.key · = (p, st)) := by
  cases succs with
  | nil => rfl
  | cons succ rest =>
    rw [Node.succCalls, Node.succVisits, List.filter_append, Node.readCalls_eq succ, Node.succCalls_eq rest]

end

theorem ReadTables.readKey_eq : v.readKey node = (v.stored node).map (v.put node) := by
  unfold ReadTables.readKey ReadTables.readNode ReadTables.stored
  cases htable : v.streetValues node.street with
  | none => rfl
  | some table =>
    cases hreader : v.readers node.playerActing node.street with
    | none => rfl
    | some reader =>
      dsimp only
      rw [CFRStreetValues.readNode, Option.map_map, Option.map_map]
      congr 1
      funext ⟨row, r⟩
      simp only [Function.comp_apply, ReadTables.put, ReadTables.store, htable, Option.map_some]

theorem ReadTables.stored_store {row : ValueRow} {reader : Reader} (hkey : (p, st) ≠ node.key) :
    (v.store p st row reader).stored node = v.stored node := by
  have hreader : (v.store p st row reader).readers node.playerActing node.street =
      v.readers node.playerActing node.street := by
    by_cases hp : node.playerActing = p
    · have hst : node.street ≠ st := fun hst => hkey (by rw [Node.key, hp, hst])
      subst hp
      simp [ReadTables.store, hst]
    · simp [ReadTables.store, hp]
  unfold ReadTables.stored
  rw [hreader]
  by_cases hst : node.street = st
  · have hp : node.playerActing ≠ p := fun hp => hkey (by rw [Node.key, hp, hst])
    subst hst
    cases htable : v.streetValues node.street with
    | none => simp [ReadTables.store, htable]
    | some table => cases hown : v.readers node.playerActing node.street <;> simp [ReadTables.store, htable, hp]
  · simp [ReadTables.store, hst]

theorem ReadTables.store_store {row row' : ValueRow} {reader reader' : Reader} (hkey : (p, st) ≠ (p', st')) :
    (v.store p st row reader).store p' st' row' reader' = (v.store p' st' row' reader').store p st row reader := by
  by_cases hst : st = st'
  · subst hst
    have hp : p ≠ p' := fun hp => hkey (by rw [hp])
    ext1
    · simp [ReadTables.store, Function.comp_def, Function.update_comm hp]
    · simp [ReadTables.store, hp, Ne.symm hp, Function.update_comm hp]
  · ext1
    · simp [ReadTables.store, hst, Ne.symm hst, Function.update_comm hst]
    · by_cases hp : p = p'
      · subst hp
        simp [ReadTables.store, Function.update_comm hst]
      · simp [ReadTables.store, hp, Ne.symm hp, Function.update_comm hp]

/-- Calls for different files may be made in any order. -/
theorem ReadTables.readKey_comm (v : ReadTables) (b c : Node) (hkey : b.key ≠ c.key) :
    (v.readKey b).bind (·.readKey c) = (v.readKey c).bind (·.readKey b) := by
  have hstored : ∀ x, (v.put b x).stored c = v.stored c := by
    rintro (_ | ⟨row, r⟩)
    · rfl
    · exact ReadTables.stored_store hkey
  have hstored' : ∀ x, (v.put c x).stored b = v.stored b := by
    rintro (_ | ⟨row, r⟩)
    · rfl
    · exact ReadTables.stored_store hkey.symm
  have hput : ∀ x y, (v.put b x).put c y = (v.put c y).put b x := by
    rintro (_ | ⟨row, r⟩) (_ | ⟨row', r'⟩)
    · rfl
    · rfl
    · rfl
    · exact ReadTables.store_store hkey
  simp only [ReadTables.readKey_eq]
  cases hb : v.stored b <;> cases hc : v.stored c <;> simp [hstored, hstored', hb, hc, hput]

theorem ReadTables.store_self {table : CFRStreetValues} {reader : Reader} (htable : v.streetValues st = some table)
    (hreader : v.readers p st = some reader) : v.store p st (table.data p) reader = v := by
  have hsame : (some table).map (fun t => { t with data := Function.update t.data p (table.data p) }) =
      v.streetValues st := by
    rw [htable, Option.map_some, Function.update_eq_self]
  ext1
  · unfold ReadTables.store
    dsimp only
    rw [htable, hsame, Function.update_eq_self]
  · unfold ReadTables.store
    dsimp only
    rw [← hreader, Function.update_eq_self, Function.update_eq_self]

theorem ReadTables.store_again {row row' : ValueRow} {reader reader' : Reader} :
    (v.store p st row reader).store p st row' reader' = v.store p st row' reader' := by
  ext1
  · simp [ReadTables.store, Function.comp_def]
  · simp [ReadTables.store]

theorem ReadTables.view_store {numHoldings : Nat} {type : CFRValueType} {row row' : ValueRow} {reader reader' : Reader}
    (hview : v.view p st = (some (numHoldings, type, row), some reader)) :
    (v.store p st row' reader').view p st = (some (numHoldings, type, row'), some reader') := by
  obtain ⟨htable, -⟩ := Prod.mk.inj hview
  obtain ⟨table, hfound, hsame⟩ := Option.map_eq_some_iff.mp htable
  cases hsame
  simp [ReadTables.view, ReadTables.store, hfound]

theorem ReadTables.view_store_of_ne {row : ValueRow} {reader : Reader} (hne : (p', st') ≠ (p, st)) :
    (v.store p st row reader).view p' st' = v.view p' st' := by
  unfold ReadTables.view
  by_cases hst : st' = st
  · have hp : p' ≠ p := fun hp => hne (by rw [hp, hst])
    subst hst
    cases hfound : v.streetValues st' <;> simp [ReadTables.store, hfound, hp]
  · by_cases hp : p' = p
    · subst hp
      simp [ReadTables.store, hst]
    · simp [ReadTables.store, hst, hp]

/-- The calls for one file are those of its own values and its own reader. -/
theorem ReadTables.foldlM_readKey {table : CFRStreetValues} {reader : Reader} {nodes : List Node}
    (hnodes : ∀ node ∈ nodes, node.key = (p, st)) (htable : v.streetValues st = some table)
    (hreader : v.readers p st = some reader) :
    nodes.foldlM ReadTables.readKey v =
      (readRows table.numHoldings table.myType nodes (table.data p, reader)).map fun s => v.store p st s.1 s.2 := by
  induction nodes generalizing v table reader with
  | nil => exact congrArg some (ReadTables.store_self htable hreader).symm
  | cons node nodes ih =>
    obtain ⟨hnode, hnodes⟩ := List.forall_mem_cons.mp hnodes
    obtain ⟨hp, hst⟩ := Prod.mk.inj hnode
    have hfirst : v.readKey node =
        (readRow table.numHoldings table.myType node (table.data p) reader).map fun s => v.store p st s.1 s.2 := by
      rw [ReadTables.readKey_eq]
      unfold ReadTables.stored
      rw [hp, hst, htable, hreader, Option.map_map]
      congr 1
      funext s
      rw [Function.comp_apply, ReadTables.put, hp, hst]
    rw [List.foldlM_cons, hfirst]
    unfold readRows
    rw [List.foldlM_cons]
    cases hrow : readRow table.numHoldings table.myType node (table.data p) reader with
    | none => rfl
    | some s =>
      obtain ⟨row, r⟩ := s
      have hrest := @ih (v.store p st row r) { table with data := Function.update table.data p row } r hnodes
        (by simp [ReadTables.store, htable]) (by simp [ReadTables.store])
      simp only [ReadTables.store_again, Function.update_self] at hrest
      exact hrest

theorem readRow_eq_readBlock {numHoldings : Nat} {type : CFRValueType} {row : ValueRow} {r : Reader} {seen : List Nat}
    (hseen : ∀ nt, (row nt).isSome ↔ nt ∈ seen) :
    readRow numHoldings type node row r =
      if node.numSuccs ≤ 1 ∨ node.id ∈ seen then some (row, r) else readBlock numHoldings type (row, r) node := by
  unfold readRow readBlock
  by_cases hsuccs : node.numSuccs ≤ 1
  · rw [if_pos hsuccs, if_pos (Or.inl hsuccs)]
  by_cases hagain : node.id ∈ seen
  · rw [if_neg hsuccs, if_pos ((hseen _).mpr hagain), if_pos (Or.inr hagain)]
  · rw [if_neg hsuccs, if_neg (mt (hseen _).mp hagain), if_neg (not_or.mpr ⟨hsuccs, hagain⟩)]

theorem readRows_cons {numHoldings : Nat} {type : CFRValueType} {nodes : List Node} {state : ValueRow × Reader} :
    readRows numHoldings type (node :: nodes) state =
      (readRow numHoldings type node state.1 state.2).bind (readRows numHoldings type nodes) := by
  unfold readRows
  rw [List.foldlM_cons, Option.bind_eq_bind]

/-- Of the calls for one file, those at a first visit read a block, and the others read nothing. -/
theorem readRows_eq_readBlock {numHoldings : Nat} {type : CFRValueType} {nodes : List Node} {row : ValueRow}
    {r : Reader} {seen : List Nat} (hseen : ∀ nt, (row nt).isSome ↔ nt ∈ seen) :
    readRows numHoldings type nodes (row, r) = (newNodes seen nodes).foldlM (readBlock numHoldings type) (row, r) := by
  induction nodes generalizing row r seen with
  | nil => simp [readRows, newNodes]
  | cons node nodes ih =>
    rw [readRows_cons, newNodes, readRow_eq_readBlock hseen]
    split
    next =>
      rw [Option.bind_some]
      exact ih hseen
    next hnew =>
      rw [List.foldlM_cons]
      cases hblock : readBlock numHoldings type (row, r) node with
      | none => simp
      | some s =>
        rw [Option.bind_some]
        unfold readBlock at hblock
        split at hblock
        next => cases hblock
        next =>
          obtain ⟨⟨values, r'⟩, _, hs⟩ := Option.map_eq_some_iff.mp hblock
          cases hs
          apply ih
          intro nt
          rw [List.mem_cons, ← hseen nt]
          by_cases hnt : nt = node.id
          · subst hnt
            simp
          · simp [hnt]

/-- Blocks whose bytes are all there are read one behind the other. -/
theorem readBlocks_whole {numHoldings : Nat} {type : CFRValueType} {nodes : List Node} {row : ValueRow} {r : Reader}
    {pos : Nat} (hids : (nodes.map Node.id).Nodup) (hsizes : ∀ node ∈ nodes, 0 ≤ node.numActions numHoldings)
    (hat : ReaderAt r pos) (hbytes : pos + valueCount numHoldings nodes * type.kind.width ≤ r.file.length) :
    ∃ row' s, nodes.foldlM (readBlock numHoldings type) (row, r) = some (row', s) ∧
      ReaderAt s (pos + valueCount numHoldings nodes * type.kind.width) ∧ s.file = r.file ∧
      (∀ before node after, nodes = before ++ node :: after →
        row' node.id = some (decodeFrom type r.file (pos + valueCount numHoldings before * type.kind.width)
          (node.numActions numHoldings).toNat)) ∧
      ∀ nt, (∀ node ∈ nodes, node.id ≠ nt) → row' nt = row nt := by
  induction nodes generalizing row r pos with
  | nil =>
    refine ⟨row, r, rfl, by simpa [valueCount] using hat, rfl, ?_, fun _ _ => rfl⟩
    intro before node after hsplit
    simp at hsplit
  | cons node nodes ih =>
    obtain ⟨hsize, hsizes⟩ := List.forall_mem_cons.mp hsizes
    rw [List.map_cons, List.nodup_cons] at hids
    have hcount : ∀ rest, pos + valueCount numHoldings (node :: rest) * type.kind.width =
        pos + (node.numActions numHoldings).toNat * type.kind.width +
          valueCount numHoldings rest * type.kind.width := by
      intro rest
      rw [valueCount, List.map_cons, List.sum_cons, Nat.add_mul, Nat.add_assoc]
      rfl
    rw [hcount] at hbytes
    have hblock : pos + (node.numActions numHoldings).toNat * type.kind.width ≤ r.file.length := by omega
    obtain ⟨r₁, hvalues, hat₁, hfile₁⟩ := hat.readValues_whole hblock
    have hfirst : readBlock numHoldings type (row, r) node =
        some (Function.update row node.id (some (decodeFrom type r.file pos (node.numActions numHoldings).toNat)), r₁) := by
      unfold readBlock
      rw [if_neg (not_lt.mpr hsize), hvalues]
      rfl
    obtain ⟨row', s, hrest, hat', hfile', hblocks, hothers⟩ := @ih
      (Function.update row node.id (some (decodeFrom type r.file pos (node.numActions numHoldings).toNat))) _ _
      hids.2 hsizes hat₁ (by rw [hfile₁]; exact hbytes)
    have hown : row' node.id = some (decodeFrom type r.file pos (node.numActions numHoldings).toNat) := by
      rw [hothers, Function.update_self]
      rintro other hother heq
      exact hids.1 (heq ▸ List.mem_map_of_mem hother)
    refine ⟨row', s, ?_, ?_, hfile'.trans hfile₁, ?_, ?_⟩
    · rw [List.foldlM_cons, hfirst]
      exact hrest
    · rwa [hcount]
    · rintro before other after hsplit
      cases before with
      | nil =>
        cases hsplit
        simpa [valueCount] using hown
      | cons first before =>
        cases hsplit
        rw [hcount, hblocks before other after rfl, hfile₁]
    · intro nt hnt
      obtain ⟨hne, hnt⟩ := List.forall_mem_cons.mp hnt
      rw [hothers nt hnt, Function.update_of_ne hne.symm]

/-- A node that was seen is left out of what is to come. -/
theorem newNodes_seen (id : Nat) (seen : List Nat) {seen' : List Nat} {nodes : List Node}
    (hseen : ∀ x, x ∈ seen' ↔ x = id ∨ x ∈ seen) :
    newNodes seen' nodes = newNodes seen (nodes.filter (Node.id · ≠ id)) := by
  induction nodes generalizing seen seen' with
  | nil => rfl
  | cons node nodes ih =>
    by_cases hid : node.id = id
    · have hagain : node.id ∈ seen' := (hseen _).mpr (Or.inl hid)
      rw [newNodes, if_pos (Or.inr hagain), ih _ hseen, List.filter_cons_of_neg (by simpa using hid)]
    · have hmem : node.id ∈ seen' ↔ node.id ∈ seen := by
        rw [hseen, or_iff_right hid]
      have hnext : ∀ x, x ∈ node.id :: seen' ↔ x = id ∨ x ∈ node.id :: seen := by
        intro x
        rw [List.mem_cons, List.mem_cons, hseen]
        tauto
      rw [List.filter_cons_of_pos (by simpa using hid), newNodes, newNodes, ih _ hseen, ih _ hnext]
      simp only [hmem]

end

section

variable {maxStreet : Nat} {α : Type*} {T : NodeDag maxStreet α} {p st : Nat} {a b : α}

theorem NodeDag.node_eq (T : NodeDag maxStreet α) (a : α) :
    T.node a = .mk (T.id a) (T.street a) (T.playerActing a) ((T.succs a).map T.node) := by
  rw [NodeDag.node]
  simp

theorem NodeDag.preorder_eq (T : NodeDag maxStreet α) (a : α) :
    T.preorder a = if T.succs a = [] then [] else a :: (T.succs a).flatMap T.preorder := by
  rw [NodeDag.preorder]
  simp [List.flatMap_subtype]

theorem Node.succVisits_eq (succs : List Node) : Node.succVisits succs = succs.flatMap Node.visits := by
  induction succs with
  | nil => rfl
  | cons succ rest ih => rw [Node.succVisits, List.flatMap_cons, ih]

theorem NodeDag.visits_node (T : NodeDag maxStreet α) (a : α) : (T.node a).visits = (T.preorder a).map T.node := by
  induction a using T.acyclic.induction with
  | _ a ih =>
    rw [T.node_eq, Node.visits, T.preorder_eq, Node.succVisits_eq, ← T.node_eq]
    by_cases hsuccs : T.succs a = []
    · rw [if_pos (by rw [hsuccs, List.map_nil]), if_pos hsuccs, List.map_nil]
    · rw [if_neg (mt List.map_eq_nil_iff.mp hsuccs), if_neg hsuccs, List.map_cons, List.map_flatMap, List.flatMap_map]
      congr 1
      exact List.flatMap_congr ih

theorem NodeDag.mem_preorder_self (hsuccs : T.succs a ≠ []) : a ∈ T.preorder a := by
  rw [T.preorder_eq, if_neg hsuccs]
  exact List.mem_cons_self

theorem NodeDag.mem_preorder_succ (hb : b ∈ T.succs a) {c : α} (hc : c ∈ T.preorder b) : c ∈ T.preorder a := by
  rw [T.preorder_eq, if_neg (List.ne_nil_of_mem hb)]
  exact List.mem_cons_of_mem _ (List.mem_flatMap.mpr ⟨b, hb, hc⟩)

/-- The visits from the root on are those of all nonterminals. -/
theorem NodeDag.mem_preorder (T : NodeDag maxStreet α) (a : α) : a ∈ T.preorder T.root ↔ T.succs a ≠ [] := by
  constructor
  · have hinner : ∀ b, a ∈ T.preorder b → T.succs a ≠ [] := by
      intro b
      induction b using T.acyclic.induction with
      | _ b ih =>
        intro ha
        rw [T.preorder_eq] at ha
        split at ha
        next => cases ha
        next hsuccs =>
          rcases List.mem_cons.mp ha with rfl | ha
          · exact hsuccs
          · obtain ⟨c, hc, ha⟩ := List.mem_flatMap.mp ha
            exact ih c hc ha
    exact hinner T.root
  · intro hsuccs
    have hbelow : ∀ b, Relation.ReflTransGen (fun a b => b ∈ T.succs a) b a → a ∈ T.preorder b := by
      intro b hreach
      induction hreach using Relation.ReflTransGen.head_induction_on with
      | refl => exact NodeDag.mem_preorder_self hsuccs
      | head hstep _ ih => exact NodeDag.mem_preorder_succ hstep ih
    exact hbelow T.root (T.connected a)

theorem nodup_eraseDups [DecidableEq α] (l : List α) : l.eraseDups.Nodup := by
  induction h : l.length using Nat.strong_induction_on generalizing l with
  | _ n ih =>
    cases l with
    | nil => exact List.nodup_nil
    | cons a l =>
      rw [List.eraseDups_cons, List.nodup_cons, List.mem_eraseDups]
      refine ⟨by simp, ih _ ?_ _ rfl⟩
      have hle := List.length_filter_le (fun b => !b == a) l
      rw [List.length_cons] at h
      omega

/-- Where the nodes of a list are known by their ids, the new ones are those at their first places. -/
theorem NodeDag.newNodes_map [DecidableEq α] (T : NodeDag maxStreet α) (l : List α)
    (hids : ∀ a ∈ l, ∀ b ∈ l, T.id a = T.id b → a = b) :
    newNodes [] (l.map T.node) = ((l.filter fun a => 1 < (T.succs a).length).eraseDups).map T.node := by
  have hsuccs : ∀ a, (T.node a).numSuccs = (T.succs a).length := by
    intro a
    rw [T.node_eq, Node.numSuccs, List.length_map]
  have hid : ∀ a, (T.node a).id = T.id a := by
    intro a
    rw [T.node_eq, Node.id]
  induction h : l.length using Nat.strong_induction_on generalizing l with
  | _ n ih =>
    cases l with
    | nil => rfl
    | cons a l =>
      rw [List.length_cons] at h
      have hrest : ∀ l' : List α, l'.Sublist l → newNodes [] (l'.map T.node) =
          ((l'.filter fun a => 1 < (T.succs a).length).eraseDups).map T.node := by
        intro l' hl'
        have hle := hl'.length_le
        refine ih l'.length (by omega) l' ?_ rfl
        intro b hb c hc
        exact hids b (List.mem_cons_of_mem _ (hl'.subset hb)) c (List.mem_cons_of_mem _ (hl'.subset hc))
      rw [List.map_cons, newNodes, hsuccs]
      by_cases hone : (T.succs a).length ≤ 1
      · rw [if_pos (Or.inl hone), List.filter_cons_of_neg (by simpa using hone)]
        exact hrest l (List.Sublist.refl l)
      · have hsame : (l.map T.node).filter (Node.id · ≠ T.id a) = (l.filter (!· == a)).map T.node := by
          rw [List.filter_map]
          congr 1
          apply List.filter_congr
          intro b hb
          have hba : T.id b = T.id a ↔ b = a :=
            ⟨hids b (List.mem_cons_of_mem _ hb) a List.mem_cons_self, fun heq => heq ▸ rfl⟩
          simp [hid, hba, beq_eq_decide]
        rw [if_neg (by simp [hone]), List.filter_cons_of_pos (by simpa using hone), List.eraseDups_cons,
          List.map_cons, hid, newNodes_seen (T.id a) [] (by simp), hsame,
          hrest _ List.filter_sublist, List.filter_filter, List.filter_filter]
        simp only [Bool.and_comm]

theorem NodeDag.key_node (T : NodeDag maxStreet α) (a : α) : (T.node a).key = (T.playerActing a, T.street a) := by
  rw [T.node_eq]
  rfl

theorem NodeDag.filter_visits (T : NodeDag maxStreet α) (p st : Nat) :
    (T.node T.root).visits.filter (Node.key · = (p, st)) =
      ((T.preorder T.root).filter fun a => T.playerActing a = p ∧ T.street a = st).map T.node := by
  rw [T.visits_node, List.filter_map]
  congr 1
  apply List.filter_congr
  intro a _
  simp [T.key_node]

theorem NodeDag.mem_blocks [DecidableEq α] (T : NodeDag maxStreet α) :
    a ∈ T.blocks p st ↔ T.HasBlock p st a := by
  unfold NodeDag.blocks
  rw [List.mem_eraseDups, List.mem_filter, T.mem_preorder, decide_eq_true_iff]
  apply and_iff_right_of_imp
  rintro ⟨_, _, hlen⟩ hnil
  rw [hnil] at hlen
  cases hlen

theorem NodeDag.newNodes_visits [DecidableEq α] (T : NodeDag maxStreet α) (p st : Nat) :
    newNodes [] ((T.node T.root).visits.filter (Node.key · = (p, st))) = (T.blocks p st).map T.node := by
  rw [T.filter_visits, T.newNodes_map]
  · unfold NodeDag.blocks
    rw [List.filter_filter]
    congr 2
    apply List.filter_congr
    intro a _
    rw [← Bool.decide_and]
    apply decide_eq_decide.mpr
    unfold NodeDag.HasBlock
    tauto
  · intro a ha b hb hid
    obtain ⟨ha, hkey⟩ := List.mem_filter.mp ha
    obtain ⟨hb, hkey'⟩ := List.mem_filter.mp hb
    obtain ⟨hp, hst⟩ := of_decide_eq_true hkey
    obtain ⟨hp', hst'⟩ := of_decide_eq_true hkey'
    exact T.identified a b ((T.mem_preorder a).mp ha) ((T.mem_preorder b).mp hb) (hst.trans hst'.symm)
      (hp.trans hp'.symm) hid

/-- The values that the threads of a load read are those of these blocks. -/
theorem NodeDag.valueNodes_eq [DecidableEq α] (T : NodeDag maxStreet α) {conf : LoadConf}
    (hroot : conf.root = T.node T.root) (p st : Nat) : conf.valueNodes p st = (T.blocks p st).map T.node := by
  rw [LoadConf.valueNodes, hroot, Node.readCalls_eq, T.newNodes_visits]

/-- `ReadSingleFile` reads the blocks of its file in the order of the first visits. -/
theorem NodeDag.readSingleFile_blocks [DecidableEq α] (T : NodeDag maxStreet α) {v : ReadTables}
    {table : CFRStreetValues} {reader : Reader} (htable : v.streetValues st = some table)
    (hreader : v.readers p st = some reader) (hfresh : ∀ nt, table.data p nt = none) :
    (T.node T.root).readSingleFile p st v =
      (((T.blocks p st).map T.node).foldlM (readBlock table.numHoldings table.myType) (table.data p, reader)).map
        fun s => v.store p st s.1 s.2 := by
  have hkeys : ∀ node ∈ (T.node T.root).visits.filter (Node.key · = (p, st)), node.key = (p, st) := by
    intro node hnode
    exact of_decide_eq_true (List.mem_filter.mp hnode).2
  have hnone : ∀ nt, (table.data p nt).isSome ↔ nt ∈ [] := by
    intro nt
    simp [hfresh]
  rw [Node.readSingleFile_eq, ReadTables.foldlM_readKey hkeys htable hreader, readRows_eq_readBlock hnone,
    T.newNodes_visits]

/-- The files one by one fill the same tables as one pass for each player, whatever the order of the files. -/
theorem NodeDag.readFiles_eq (T : NodeDag maxStreet α) {numPlayers : Nat} {files : List (Nat × Nat)}
    (hfiles : files.Perm ((List.range numPlayers).product (List.range (maxStreet + 1)))) (v : ReadTables) :
    (T.node T.root).readFiles files v = (T.node T.root).readPlayers numPlayers v := by
  have hnodup : files.Nodup := hfiles.nodup_iff.mpr (List.nodup_range.product List.nodup_range)
  have hstreets : ∀ node ∈ (T.node T.root).visits, node.street ≤ maxStreet := by
    rw [T.visits_node]
    intro node hnode
    obtain ⟨a, ha, rfl⟩ := List.mem_map.mp hnode
    rw [T.node_eq]
    exact T.street_le a ((T.mem_preorder a).mp ha)
  unfold Node.readFiles Node.readPlayers
  simp only [Node.readSingleFile_eq, Node.read_eq]
  rw [← foldlM_flatMap, ← foldlM_flatMap]
  apply foldlM_eq_of_filter_eq ReadTables.readKey_comm
  rintro ⟨p, st⟩
  have hplayer : ∀ node : Node, decide (node.key = (p, st)) = true → node.playerActing = p := by
    intro node hnode
    exact (Prod.mk.inj (of_decide_eq_true hnode)).1
  rw [filter_flatMap_filter hnodup (fun node hnode => of_decide_eq_true hnode),
    filter_flatMap_filter List.nodup_range hplayer]
  have hmem : (p, st) ∈ files ↔ p < numPlayers ∧ st ≤ maxStreet := by
    rw [hfiles.mem_iff, List.pair_mem_product, List.mem_range, List.mem_range, Nat.lt_succ_iff]
  by_cases hst : st ≤ maxStreet
  · simp [hmem, hst, List.mem_range]
  · have hnone : (T.node T.root).visits.filter (Node.key · = (p, st)) = [] := by
      rw [List.filter_eq_nil_iff]
      intro node hnode hkey
      have hstreet := hstreets node hnode
      rw [(Prod.mk.inj (of_decide_eq_true hkey)).2] at hstreet
      exact hst hstreet
    rw [hnone, ite_self, ite_self]

theorem NodeDag.blocks_ids [DecidableEq α] (T : NodeDag maxStreet α) (p st : Nat) :
    (((T.blocks p st).map T.node).map Node.id).Nodup := by
  have hid : ∀ a, (T.node a).id = T.id a := by
    intro a
    rw [T.node_eq, Node.id]
  have hnodup : (T.blocks p st).Nodup := nodup_eraseDups _
  rw [List.map_map]
  refine hnodup.map_on fun a ha b hb heq => ?_
  obtain ⟨hp, hst, hsuccs⟩ := T.mem_blocks.mp ha
  obtain ⟨hp', hst', hsuccs'⟩ := T.mem_blocks.mp hb
  rw [Function.comp_apply, Function.comp_apply, hid, hid] at heq
  refine T.identified a b ?_ ?_ (hst.trans hst'.symm) (hp.trans hp'.symm) heq
  · rintro hnil
    rw [hnil] at hsuccs
    cases hsuccs
  · rintro hnil
    rw [hnil] at hsuccs'
    cases hsuccs'

/-- A file that holds its blocks is read into the values of its player. -/
theorem NodeDag.readSingleFile_holds [DecidableEq α] (T : NodeDag maxStreet α) {v : ReadTables} {numHoldings pos : Nat}
    {type : CFRValueType} {reader : Reader} (hview : v.view p st = (some (numHoldings, type, fun _ => none), some reader))
    (hholds : T.FileHolds p st numHoldings type reader pos) :
    ∃ row reader', (T.node T.root).readSingleFile p st v = some (v.store p st row reader') ∧
      T.BlocksRead p st numHoldings type reader pos row reader' := by
  obtain ⟨htable, hreader⟩ := Prod.mk.inj hview
  obtain ⟨table, hfound, hsame⟩ := Option.map_eq_some_iff.mp htable
  obtain ⟨hnum, htyped⟩ := Prod.mk.inj hsame
  obtain ⟨htype, hdata⟩ := Prod.mk.inj htyped
  subst hnum htype
  have hfresh : ∀ nt, table.data p nt = none := fun nt => by rw [hdata]
  have hid : ∀ a, (T.node a).id = T.id a := by
    intro a
    rw [T.node_eq, Node.id]
  have hsizes : ∀ node ∈ (T.blocks p st).map T.node, 0 ≤ node.numActions table.numHoldings := by
    intro node hnode
    obtain ⟨a, ha, rfl⟩ := List.mem_map.mp hnode
    exact hholds.sizes a ha
  obtain ⟨row, reader', hread, hat, hfile, hblocks, hothers⟩ :=
    @readBlocks_whole _ _ _ (table.data p) _ _ (T.blocks_ids p st) hsizes hholds.at_ hholds.bytes
  refine ⟨row, reader', ?_, ⟨?_, ?_, hat, hfile⟩⟩
  · rw [T.readSingleFile_blocks hfound hreader hfresh, hread]
    rfl
  · intro before a after hsplit
    rw [← hid]
    refine hblocks (before.map T.node) (T.node a) (after.map T.node) ?_
    rw [hsplit, List.map_append, List.map_cons]
  · intro nt hnt
    rw [hothers nt ?_, hfresh]
    intro node hnode
    obtain ⟨a, ha, rfl⟩ := List.mem_map.mp hnode
    rw [hid]
    exact hnt a ha

/-- Files that hold their blocks are all read, each into its own values, whichever comes first. -/
theorem NodeDag.readFiles_holds [DecidableEq α] (T : NodeDag maxStreet α) {files : List (Nat × Nat)} (hnodup : files.Nodup)
    {numHoldings pos : Nat × Nat → Nat} {type : Nat × Nat → CFRValueType} {reader : Nat × Nat → Reader} {v : ReadTables}
    (hfiles : ∀ f ∈ files, v.view f.1 f.2 = (some (numHoldings f, type f, fun _ => none), some (reader f)) ∧
      T.FileHolds f.1 f.2 (numHoldings f) (type f) (reader f) (pos f)) :
    ∃ w, (T.node T.root).readFiles files v = some w ∧
      (∀ f ∈ files, ∃ row reader', w.view f.1 f.2 = (some (numHoldings f, type f, row), some reader') ∧
        T.BlocksRead f.1 f.2 (numHoldings f) (type f) (reader f) (pos f) row reader') ∧
      ∀ f ∉ files, w.view f.1 f.2 = v.view f.1 f.2 := by
  induction files generalizing v with
  | nil => exact ⟨v, rfl, by simp, fun _ _ => rfl⟩
  | cons f files ih =>
    obtain ⟨hnew, hnodup⟩ := List.nodup_cons.mp hnodup
    obtain ⟨⟨hview, hholds⟩, hrest⟩ := List.forall_mem_cons.mp hfiles
    obtain ⟨row, reader', hread, hblocks⟩ := T.readSingleFile_holds hview hholds
    have hkept : ∀ g, g ≠ f → (v.store f.1 f.2 row reader').view g.1 g.2 = v.view g.1 g.2 :=
      fun g hg => ReadTables.view_store_of_ne hg
    obtain ⟨w, hw, hdone, hothers⟩ := ih hnodup (v := v.store f.1 f.2 row reader') fun g hg => by
      rw [hkept g (ne_of_mem_of_not_mem hg hnew)]
      exact hrest g hg
    refine ⟨w, ?_, ?_, ?_⟩
    · unfold Node.readFiles at hw ⊢
      rw [List.foldlM_cons, hread]
      exact hw
    · refine List.forall_mem_cons.mpr ⟨⟨row, reader', ?_, hblocks⟩, hdone⟩
      rw [hothers f hnew, ReadTables.view_store hview]
    · intro g hg
      obtain ⟨hne, hg⟩ := List.mem_cons.not.trans not_or |>.mp hg
      rw [hothers g hg, hkept g hne]

/-- `ReadSingleFile` reads the block of every nonterminal of its player and street once, in the order of the first
visits, from a file that holds them it reads each at its place and moves on by their bytes, and the files one by one fill
the same tables as `Read`. -/
theorem NodeDag.readSingleFile_once [DecidableEq α] (T : NodeDag maxStreet α) (v : ReadTables) :
    (∀ p st, (T.blocks p st).Nodup ∧ (∀ a, a ∈ T.blocks p st ↔ T.HasBlock p st a) ∧
      (∀ table reader, v.streetValues st = some table → v.readers p st = some reader → (∀ nt, table.data p nt = none) →
        (T.node T.root).readSingleFile p st v =
          (((T.blocks p st).map T.node).foldlM (readBlock table.numHoldings table.myType) (table.data p, reader)).map
            fun s => v.store p st s.1 s.2) ∧
      ∀ numHoldings type reader pos, v.view p st = (some (numHoldings, type, fun _ => none), some reader) →
        T.FileHolds p st numHoldings type reader pos →
          ∃ row reader', (T.node T.root).readSingleFile p st v = some (v.store p st row reader') ∧
            T.BlocksRead p st numHoldings type reader pos row reader') ∧
      ∀ numPlayers files, files.Perm ((List.range numPlayers).product (List.range (maxStreet + 1))) →
        (T.node T.root).readFiles files v = (T.node T.root).readPlayers numPlayers v ∧
        ∀ (numHoldings pos : Nat × Nat → Nat) (type : Nat × Nat → CFRValueType) (reader : Nat × Nat → Reader),
          (∀ f ∈ files, v.view f.1 f.2 = (some (numHoldings f, type f, fun _ => none), some (reader f)) ∧
            T.FileHolds f.1 f.2 (numHoldings f) (type f) (reader f) (pos f)) →
          ∃ w, (T.node T.root).readFiles files v = some w ∧ (T.node T.root).readPlayers numPlayers v = some w ∧
            ∀ f ∈ files, ∃ row reader', w.view f.1 f.2 = (some (numHoldings f, type f, row), some reader') ∧
              T.BlocksRead f.1 f.2 (numHoldings f) (type f) (reader f) (pos f) row reader' := by
  refine ⟨fun p st => ⟨nodup_eraseDups _, fun a => T.mem_blocks, ?_, ?_⟩, ?_⟩
  · intro table reader htable hreader hfresh
    exact T.readSingleFile_blocks htable hreader hfresh
  · intro numHoldings type reader pos hview hholds
    exact T.readSingleFile_holds hview hholds
  · intro numPlayers files hfiles
    have heq := T.readFiles_eq hfiles v
    have hnodup : files.Nodup := hfiles.nodup_iff.mpr (List.nodup_range.product List.nodup_range)
    refine ⟨heq, fun numHoldings pos type reader hholds => ?_⟩
    obtain ⟨w, hw, hdone, -⟩ := T.readFiles_holds hnodup hholds
    exact ⟨w, hw, heq ▸ hw, hdone⟩

end

inductive ForkNode where
  | start
  | answer
  | shared
  | leaf
deriving DecidableEq

namespace ForkNode

def succs : ForkNode → List ForkNode
  | start => [answer, shared]
  | answer => [shared, leaf]
  | shared => [leaf, leaf]
  | leaf => []

def height : ForkNode → Nat
  | start => 3
  | answer => 2
  | shared => 1
  | leaf => 0

theorem height_lt {a b : ForkNode} (hb : b ∈ a.succs) : b.height < a.height := by
  cases a <;> simp only [succs, List.mem_cons, List.not_mem_nil, or_false] at hb
  case start => rcases hb with rfl | rfl <;> decide
  case answer => rcases hb with rfl | rfl <;> decide
  case shared => rcases hb with rfl | rfl <;> decide

end ForkNode

/-- A tree on one street, in which the first player chooses twice and the second choice is shared. -/
def forkDag : NodeDag 0 ForkNode where
  id a := if a = .shared then 1 else 0
  street _ := 0
  playerActing a := if a = .answer then 1 else 0
  succs := ForkNode.succs
  root := .start
  connected a := by
    have hfirst : Relation.ReflTransGen (fun a b => b ∈ ForkNode.succs a) .start .answer := .single (by decide)
    cases a with
    | start => exact .refl
    | answer => exact hfirst
    | shared => exact hfirst.tail (by decide)
    | leaf => exact hfirst.tail (by decide)
  acyclic := Subrelation.wf ForkNode.height_lt (measure ForkNode.height).wf
  street_le _ _ := le_refl 0
  identified a b := by
    cases a <;> cases b <;> decide

theorem forkDag_preorder : forkDag.preorder forkDag.root = [.start, .answer, .shared, .shared] := by
  have hinner : ∀ a : ForkNode, a.succs ≠ [] → forkDag.preorder a = a :: a.succs.flatMap forkDag.preorder := by
    intro a ha
    rw [forkDag.preorder_eq]
    exact if_neg ha
  have hleaf : forkDag.preorder .leaf = [] := by
    rw [forkDag.preorder_eq]
    rfl
  have hroot : forkDag.root = .start := rfl
  rw [hroot, hinner .start (by decide)]
  simp only [ForkNode.succs, List.flatMap_cons, List.flatMap_nil]
  rw [hinner .answer (by decide), hinner .shared (by decide)]
  simp [ForkNode.succs, List.flatMap_cons, hinner .shared (by decide), hleaf]

theorem forkDag_blocks : forkDag.blocks 0 0 = [.start, .shared] ∧ forkDag.blocks 1 0 = [.answer] := by
  unfold NodeDag.blocks
  rw [forkDag_preorder]
  decide

theorem forkDag_numActions (a : ForkNode) : (forkDag.node a).numActions 1 = a.succs.length := by
  have hsuccs : (forkDag.node a).numSuccs = a.succs.length := by
    rw [forkDag.node_eq, Node.numSuccs, List.length_map]
    rfl
  rw [Node.numActions, hsuccs]
  cases a <;> decide

/-- The file of four bytes, with its reader at the start. -/
def fourBytes : Reader where
  file := [7, 8, 9, 10]
  fdPos := 4
  remaining := 0
  bufSize := 4
  buf := copyIn (fun _ => 0) 0 [7, 8, 9, 10]
  bufPtr := 0
  endRead := 4
  overflow := []
  bytePos := 0

def forkTables : ReadTables where
  streetValues _ := some ⟨1, .char, .char, fun _ _ => none⟩
  readers _ _ := some fourBytes

theorem fourBytes_holds {p : Nat} (hp : p = 0 ∨ p = 1) : forkDag.FileHolds p 0 1 .char fourBytes 0 := by
  refine ⟨⟨by decide, rfl, by decide, rfl, rfl, by decide, rfl⟩, ?_, ?_⟩
  · intro a _
    rw [forkDag_numActions]
    exact Int.natCast_nonneg _
  · rcases hp with rfl | rfl
    · rw [forkDag_blocks.1]
      simp only [List.map_cons, List.map_nil, valueCount, forkDag_numActions]
      decide
    · rw [forkDag_blocks.2]
      simp only [List.map_cons, List.map_nil, valueCount, forkDag_numActions]
      decide

/-- Two files, read one by one in the other order, fill the tables of one pass, with two bytes for each node of the first
player and the shared one read once. -/
theorem forkDag_reads_once :
    (∃ row reader, (forkDag.node .start).readSingleFile 0 0 forkTables = some (forkTables.store 0 0 row reader) ∧
      row 0 = some [.integer 7, .integer 8] ∧ row 1 = some [.integer 9, .integer 10] ∧ ReaderAt reader 4) ∧
      ∃ w, (forkDag.node .start).readFiles [(1, 0), (0, 0)] forkTables = some w ∧
        (forkDag.node .start).readPlayers 2 forkTables = some w ∧
        ∃ row reader, w.view 1 0 = (some (1, .char, row), some reader) ∧ row 0 = some [.integer 7, .integer 8] ∧
          ReaderAt reader 2 := by
  obtain ⟨hfile, hall⟩ := forkDag.readSingleFile_once forkTables
  constructor
  · obtain ⟨row, reader, hread, hblocks⟩ := (hfile 0 0).2.2.2 1 .char fourBytes 0 rfl (fourBytes_holds (.inl rfl))
    have hat := hblocks.at_
    have hstart := hblocks.block [] .start [.shared] forkDag_blocks.1
    have hshared := hblocks.block [.start] .shared [] forkDag_blocks.1
    rw [forkDag_blocks.1] at hat
    simp only [List.map_cons, List.map_nil, valueCount, forkDag_numActions] at hat hstart hshared
    exact ⟨row, reader, hread, hstart, hshared, hat⟩
  · obtain ⟨w, hw, hplayers, hdone⟩ := (hall 2 [(1, 0), (0, 0)] (by decide)).2 (fun _ => 1) (fun _ => 0) (fun _ => .char)
      (fun _ => fourBytes) (by
        intro f hf
        simp only [List.mem_cons, List.not_mem_nil, or_false] at hf
        rcases hf with rfl | rfl
        · exact ⟨rfl, fourBytes_holds (.inr rfl)⟩
        · exact ⟨rfl, fourBytes_holds (.inl rfl)⟩)
    obtain ⟨row, reader, hview, hblocks⟩ := hdone (1, 0) (by simp)
    have hat := hblocks.at_
    have hanswer := hblocks.block [] .answer [] forkDag_blocks.2
    rw [forkDag_blocks.2] at hat
    simp only [List.map_cons, List.map_nil, valueCount, forkDag_numActions] at hat hanswer
    exact ⟨w, hw, hplayers, row, reader, hview, hanswer, hat⟩

end MasterAI
