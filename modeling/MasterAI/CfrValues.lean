import MasterAI.FileReader
import MasterAI.WrapInt32

namespace MasterAI

inductive CFRValueType
  | char
  | short
  | int
  | double
  deriving DecidableEq, Repr

def CFRValueType.kind : CFRValueType → ReadKind
  | .char => .unsignedChar
  | .short => .unsignedShort
  | .int => .int
  | .double => .double

/-- A stored value. A double is kept as the bits it is stored in. -/
inductive CfrValue
  | integer (i : Int)
  | double (bits : List UInt8)
  deriving DecidableEq, Repr

def CFRValueType.decode : CFRValueType → List UInt8 → CfrValue
  | .char, b | .short, b => .integer (littleEndian b)
  | .int, b => .integer (Int.bmod (littleEndian b) 4294967296)
  | .double, b => .double b

/-- `ReadOrDie` of a value; nothing where the program exits. -/
def Reader.readOrDie (r : Reader) : CFRValueType → Option (CfrValue × Reader)
  | .char => r.readUnsignedChar.bind fun (u, r) => u.map fun n => (.integer (Int.ofNat n), r)
  | .short => r.readUnsignedShort.bind fun (u, r) => u.map fun n => (.integer (Int.ofNat n), r)
  | .int => r.readInt.bind fun (i, r) => i.map fun i => (.integer i, r)
  | .double => r.readDouble.bind fun (d, r) => d.map fun d => (.double d, r)

def Reader.readValues (type : CFRValueType) : Nat → Reader → Option (List CfrValue × Reader)
  | 0, r => some ([], r)
  | n + 1, r =>
    (r.readOrDie type).bind fun (value, r) =>
      (readValues type n r).map fun (values, r) => (value :: values, r)

/-- A node of the betting tree. -/
inductive Node
  | mk (id street playerActing : Nat) (succs : List Node)

namespace Node

def id : Node → Nat
  | mk id _ _ _ => id

def playerActing : Node → Nat
  | mk _ _ playerActing _ => playerActing

def numSuccs : Node → Nat
  | mk _ _ _ succs => succs.length

def numActions (node : Node) (numHoldings : Nat) : Int := wrapInt32 (numHoldings * node.numSuccs)

mutual

/-- The nodes on which `ReadSingleFile` calls `ReadNode` for a player and a street, in order. -/
def readCalls (p st : Nat) : Node → List Node
  | mk id street playerActing succs =>
    if succs = [] then []
    else (if playerActing = p ∧ street = st then [mk id street playerActing succs] else []) ++ succCalls p st succs

def succCalls (p st : Nat) : List Node → List Node
  | [] => []
  | succ :: rest => succ.readCalls p st ++ succCalls p st rest

end

end Node

/-- The values of a street. `data` has nothing for a nonterminal whose array is not allocated; the
elements are of type `myType`, which is narrower than the type of the file for quantized values. -/
structure CFRStreetValues where
  numHoldings : Nat
  fileValueType : CFRValueType
  myType : CFRValueType
  data : Nat → Nat → Option (List CfrValue)

abbrev ValueRow := Nat → Option (List CfrValue)

/-- `ReadNode`, on the values of the player to act alone. All branches on the type of the file read
elements in the same way, and an array of negative size ends the program. -/
def readRow (numHoldings : Nat) (type : CFRValueType) (node : Node) (row : ValueRow) (r : Reader) :
    Option (ValueRow × Reader) :=
  if node.numSuccs ≤ 1 then some (row, r)
  else if (row node.id).isSome then some (row, r)
  else if node.numActions numHoldings < 0 then none
  else
    (r.readValues type (node.numActions numHoldings).toNat).map fun (values, r) =>
      (Function.update row node.id (some values), r)

def CFRStreetValues.readNode (t : CFRStreetValues) (node : Node) (r : Reader) : Option (CFRStreetValues × Reader) :=
  (readRow t.numHoldings t.myType node (t.data node.playerActing) r).map fun (row, r) =>
    ({ t with data := Function.update t.data node.playerActing row }, r)

/-- What `Read_MultiThread` is called on: the game, the betting tree, the directory and the memory that
the buffers of the readers are allocated in. -/
structure LoadConf where
  numPlayers : Nat
  maxStreet : Nat
  players : Nat → Bool
  streets : Nat → Bool
  numHoldings : Nat → Nat
  root : Node
  onlyP : Int
  quantize : Bool
  dir : Nat → Nat → CFRValueType → Option (List UInt8)
  memory : Nat → Nat → Nat → UInt8

/-- The state of a load: the street values, the readers, and the calls of `ReadNode` that each thread
still makes. -/
structure CFRValues where
  streetValues : Nat → Option CFRStreetValues
  readers : Nat → Nat → Option Reader
  calls : Nat → Nat → List Node

def errOk : Int := 0
def errLoadingCfrNoFile : Int := -301
def errLoadingCfrNotFullPlayer : Int := -302
def errLoadingCfrNotFullStreet : Int := -303
def errLoadingCfrNotTheEnd : Int := -304

namespace LoadConf

/-- The file of a player and a street, under the first of its suffixes that is there. -/
def initializeReader (conf : LoadConf) (p st : Nat) : Option (CFRValueType × List UInt8) :=
  [CFRValueType.double, .int, .char, .short].findSome? fun type => (conf.dir p st type).map fun file => (type, file)

def myType (conf : LoadConf) (type : CFRValueType) : CFRValueType := if conf.quantize then .char else type

def createStreetValues (conf : LoadConf) (st : Nat) (type : CFRValueType) : CFRStreetValues :=
  ⟨conf.numHoldings st, type, conf.myType type, fun _ _ => none⟩

/-- One turn of the loop that opens the files. -/
def openFile (conf : LoadConf) (v : CFRValues) (p st : Nat) : Except Int CFRValues :=
  if conf.players p = false then .error errLoadingCfrNotFullPlayer
  else if conf.streets st = false then .error errLoadingCfrNotFullStreet
  else
    match conf.initializeReader p st with
    | none => .error errLoadingCfrNoFile
    | some (type, file) =>
      .ok { v with
        readers := Function.update v.readers p (Function.update (v.readers p) st (Reader.opened file (conf.memory p st)))
        streetValues :=
          match v.streetValues st with
          | none => Function.update v.streetValues st (some (conf.createStreetValues st type))
          | some _ => v.streetValues }

def files (conf : LoadConf) : List (Nat × Nat) :=
  (List.range conf.numPlayers).flatMap fun p => (List.range (conf.maxStreet + 1)).map fun st => (p, st)

/-- The state in which the threads start. -/
def openFiles (conf : LoadConf) : Except Int CFRValues :=
  if conf.onlyP ≠ -1 then .error errLoadingCfrNotFullPlayer
  else
    conf.files.foldlM (fun v (p, st) => conf.openFile v p st)
      ⟨fun _ => none, fun _ _ => none, fun p st => conf.root.readCalls p st⟩

end LoadConf

namespace CFRValues

/-- The next call of `ReadNode` of a thread; nothing where the thread is done or the program exits. -/
def readNext (v : CFRValues) (p st : Nat) : Option CFRValues :=
  match v.calls p st, v.streetValues st, v.readers p st with
  | node :: rest, some table, some reader =>
    (table.readNode node reader).map fun (table, reader) =>
      { streetValues := Function.update v.streetValues st (some table)
        readers := Function.update v.readers p (Function.update (v.readers p) st (some reader))
        calls := Function.update v.calls p (Function.update (v.calls p) st rest) }
  | _ :: rest, none, _ =>
    some { v with calls := Function.update v.calls p (Function.update (v.calls p) st rest) }
  | _, _, _ => none

def finished (conf : LoadConf) (v : CFRValues) : Prop := ∀ f ∈ conf.files, v.calls f.1 f.2 = []

/-- What `Read_MultiThread` returns when all threads are done. -/
def result (conf : LoadConf) (v : CFRValues) : Int :=
  if conf.files.all fun (p, st) => (v.readers p st).any Reader.atEnd then errOk else errLoadingCfrNotTheEnd

end CFRValues

def LoadStep (conf : LoadConf) (v : CFRValues) (thread : Nat × Nat) (w : CFRValues) : Prop :=
  thread ∈ conf.files ∧ v.readNext thread.1 thread.2 = some w

/-- The runs of the threads, whichever of them makes the next call. -/
abbrev LoadRun (conf : LoadConf) := StepRun (LoadStep conf) fun v => conf.openFiles = .ok v

/-- The values that a stretch of a file holds in some type. -/
def decodeFrom (type : CFRValueType) (file : List UInt8) (pos n : Nat) : List CfrValue :=
  (List.range n).map fun i => type.decode ((file.drop (pos + i * type.kind.width)).take type.kind.width)

/-- All values of a file. -/
def decodeFile (type : CFRValueType) (file : List UInt8) : List CfrValue :=
  decodeFrom type file 0 (file.length / type.kind.width)

/-- The nodes that get values, each at its first visit. -/
def newNodes (seen : List Nat) : List Node → List Node
  | [] => []
  | node :: rest =>
    if node.numSuccs ≤ 1 ∨ node.id ∈ seen then newNodes seen rest else node :: newNodes (node.id :: seen) rest

def valueCount (numHoldings : Nat) (nodes : List Node) : Nat :=
  (nodes.map fun node => (node.numActions numHoldings).toNat).sum

/-- The values stored for nodes, one node after the other. -/
def storedValues (row : ValueRow) (nodes : List Node) : List CfrValue := nodes.flatMap fun node => (row node.id).getD []

namespace LoadConf

/-- The nodes of a player on a street that get values. -/
def valueNodes (conf : LoadConf) (p st : Nat) : List Node := newNodes [] (conf.root.readCalls p st)

/-- The file of a player has the type in which the street is stored, or the player has no values there. -/
def ownType (conf : LoadConf) (p st : Nat) : Prop :=
  (conf.initializeReader p st).map Prod.fst = (conf.initializeReader 0 st).map (fun found => conf.myType found.1) ∨
    valueCount (conf.numHoldings st) (conf.valueNodes p st) = 0

/-- Every node of a player on a street has its number of values, and together they are those of the
player's file in the type of its suffix. -/
def StoresFile (conf : LoadConf) (v : CFRValues) (p st : Nat) : Prop :=
  ∃ type file table, conf.initializeReader p st = some (type, file) ∧ v.streetValues st = some table ∧
    (∀ node ∈ conf.valueNodes p st,
      (table.data p node.id).map List.length = some (node.numActions (conf.numHoldings st)).toNat) ∧
    storedValues (table.data p) (conf.valueNodes p st) = decodeFile type file

end LoadConf

section

variable {r s : Reader} {pos n : Nat} {type : CFRValueType} {value : CfrValue} {values : List CfrValue}

theorem decodeFrom_length (file : List UInt8) : (decodeFrom type file pos n).length = n := by
  simp [decodeFrom]

theorem decodeFrom_add (file : List UInt8) (m : Nat) :
    decodeFrom type file pos (m + n) =
      decodeFrom type file pos m ++ decodeFrom type file (pos + m * type.kind.width) n := by
  unfold decodeFrom
  rw [List.range_add, List.map_append, List.map_map]
  congr 1
  refine List.map_congr_left fun i _ => ?_
  rw [Function.comp_apply, Nat.add_mul, Nat.add_assoc]

theorem Reader.readOrDie_eq :
    r.readOrDie type = (r.readBytes type.kind.width).bind fun (bytes, s) => bytes.map fun b => (type.decode b, s) := by
  cases type with
  | char | short | int | double =>
    simp only [Reader.readOrDie, Reader.readUnsignedChar, Reader.readUnsignedShort, Reader.readInt, Reader.readDouble,
      Reader.readTyped, CFRValueType.kind, CFRValueType.decode, Option.bind_map]
    congr 1
    funext x
    simp only [Function.comp_apply, Option.map_map]
    rfl

/-- One value is that of the file, or the reader ends up past the end. -/
theorem ReaderAt.readOrDie (h : ReaderAt r pos) (hread : r.readOrDie type = some (value, s)) :
    (value = type.decode ((r.file.drop pos).take type.kind.width) ∧ ReaderAt s (pos + type.kind.width) ∧
      s.file = r.file) ∨ s.Past := by
  have hpos := h.pos_eq
  have hrem := h.remaining
  rw [Reader.readOrDie_eq] at hread
  obtain ⟨⟨bytes, s'⟩, hbytes, hread⟩ := Option.bind_eq_some_iff.mp hread
  obtain ⟨b, rfl, hvalue⟩ := Option.map_eq_some_iff.mp hread
  cases hvalue
  by_cases hwhole : pos + type.kind.width ≤ r.file.length
  · obtain ⟨s', hs', hat, hfile⟩ := h.read hwhole
    rw [hs'] at hbytes
    cases hbytes
    exact Or.inl ⟨rfl, hat, hfile⟩
  · by_cases hlt : pos < r.file.length
    · have hcut : r.file.length < pos + type.kind.width := by omega
      obtain ⟨bytes, s', hs', hpast⟩ := h.read_cut hlt hcut
      rw [hs'] at hbytes
      cases hbytes
      exact Or.inr hpast
    · obtain rfl : pos = r.file.length := by omega
      rw [h.read_end] at hbytes
      cases hbytes

/-- A value whose bytes are all there is read. -/
theorem ReaderAt.readOrDie_whole (h : ReaderAt r pos) (hwhole : pos + type.kind.width ≤ r.file.length) :
    ∃ s, r.readOrDie type = some (type.decode ((r.file.drop pos).take type.kind.width), s) ∧
      ReaderAt s (pos + type.kind.width) ∧ s.file = r.file := by
  obtain ⟨s, hs, hat, hfile⟩ := h.read hwhole
  refine ⟨s, ?_, hat, hfile⟩
  rw [Reader.readOrDie_eq, hs]
  rfl

/-- Values whose bytes are all there are those of the file, and the reader moves on by these bytes. -/
theorem ReaderAt.readValues_whole (h : ReaderAt r pos) (hwhole : pos + n * type.kind.width ≤ r.file.length) :
    ∃ s, r.readValues type n = some (decodeFrom type r.file pos n, s) ∧ ReaderAt s (pos + n * type.kind.width) ∧
      s.file = r.file := by
  induction n generalizing r pos with
  | zero => exact ⟨r, rfl, by rwa [Nat.zero_mul], rfl⟩
  | succ n ih =>
    rw [Nat.add_mul, Nat.one_mul] at hwhole
    have hbytes : pos + type.kind.width ≤ r.file.length := by omega
    obtain ⟨r', hfirst, hat, hfile⟩ := h.readOrDie_whole hbytes
    obtain ⟨s, hrest, hnext, hsame⟩ := ih hat (by rw [hfile]; omega)
    refine ⟨s, ?_, ?_, hsame.trans hfile⟩
    · rw [Reader.readValues, hfirst, Option.bind_some]
      dsimp only
      rw [hrest, Option.map_some, hfile, Nat.add_comm n 1, decodeFrom_add, Nat.one_mul]
      simp [decodeFrom]
    · rwa [Nat.add_mul, Nat.one_mul, Nat.add_comm (n * _), ← Nat.add_assoc]

theorem Reader.Past.readOrDie (h : r.Past) : r.readOrDie type = none := by
  rw [Reader.readOrDie_eq, h.read]
  rfl

theorem Reader.Past.readValues (h : r.Past) (hread : r.readValues type n = some (values, s)) : s.Past := by
  cases n with
  | zero =>
    cases hread
    exact h
  | succ n =>
    rw [Reader.readValues, h.readOrDie] at hread
    cases hread

theorem ReaderAt.readValues (h : ReaderAt r pos) (hread : r.readValues type n = some (values, s)) :
    (values = decodeFrom type r.file pos n ∧ ReaderAt s (pos + n * type.kind.width) ∧ s.file = r.file) ∨ s.Past := by
  induction n generalizing r pos values with
  | zero =>
    cases hread
    exact Or.inl ⟨rfl, by rwa [Nat.zero_mul], rfl⟩
  | succ n ih =>
    obtain ⟨⟨value, r'⟩, hvalue, hread⟩ := Option.bind_eq_some_iff.mp hread
    obtain ⟨⟨rest, s'⟩, hrest, hread⟩ := Option.map_eq_some_iff.mp hread
    cases hread
    rcases h.readOrDie hvalue with ⟨rfl, hat, hfile⟩ | hpast
    · rcases ih hat hrest with ⟨rfl, hnext, hsame⟩ | hpast
      · refine Or.inl ⟨?_, ?_, hsame.trans hfile⟩
        · rw [Nat.add_comm n 1, decodeFrom_add, hfile, Nat.one_mul]
          simp [decodeFrom]
        · rwa [Nat.add_mul, Nat.one_mul, Nat.add_comm (n * _), ← Nat.add_assoc]
      · exact Or.inr hpast
    · exact Or.inr (hpast.readValues hrest)

end

/-- The calls of `ReadNode` that a thread has made, as if it ran alone. -/
def readRows (numHoldings : Nat) (type : CFRValueType) (nodes : List Node) (state : ValueRow × Reader) :
    Option (ValueRow × Reader) :=
  nodes.foldlM (fun state node => readRow numHoldings type node state.1 state.2) state

section

variable {r s : Reader} {pos numHoldings : Nat} {type : CFRValueType} {node : Node} {nodes : List Node}
  {row row' : ValueRow} {seen : List Nat}

theorem readRows_append (state : ValueRow × Reader) :
    readRows numHoldings type (nodes ++ [node]) state =
      (readRows numHoldings type nodes state).bind fun state => readRow numHoldings type node state.1 state.2 := by
  simp [readRows, List.foldlM_append, Option.bind_eq_bind]

theorem Reader.Past.readRow (h : r.Past) (hread : readRow numHoldings type node row r = some (row', s)) : s.Past := by
  unfold MasterAI.readRow at hread
  split at hread
  · cases hread
    exact h
  split at hread
  · cases hread
    exact h
  split at hread
  · cases hread
  obtain ⟨⟨values, s'⟩, hvalues, hread⟩ := Option.map_eq_some_iff.mp hread
  cases hread
  exact h.readValues hvalues

theorem Reader.Past.readRows (h : r.Past) (hread : readRows numHoldings type nodes (row, r) = some (row', s)) :
    s.Past := by
  induction nodes generalizing row r with
  | nil =>
    cases hread
    exact h
  | cons node nodes ih =>
    obtain ⟨⟨row₁, r₁⟩, hfirst, hrest⟩ := Option.bind_eq_some_iff.mp hread
    exact ih (h.readRow hfirst) hrest

/-- One call of `ReadNode` skips a node that gets no values, or stores the next values of the file. -/
theorem ReaderAt.readRow (h : ReaderAt r pos) (hseen : ∀ nt, (row nt).isSome ↔ nt ∈ seen)
    (hread : readRow numHoldings type node row r = some (row', s)) :
    ((node.numSuccs ≤ 1 ∨ node.id ∈ seen) ∧ row' = row ∧ s = r) ∨
      (¬(node.numSuccs ≤ 1 ∨ node.id ∈ seen) ∧
        (s.Past ∨ row' = Function.update row node.id
            (some (decodeFrom type r.file pos (node.numActions numHoldings).toNat)) ∧
          ReaderAt s (pos + (node.numActions numHoldings).toNat * type.kind.width) ∧ s.file = r.file)) := by
  unfold MasterAI.readRow at hread
  split at hread
  · rename_i hsuccs
    cases hread
    exact Or.inl ⟨Or.inl hsuccs, rfl, rfl⟩
  split at hread
  · rename_i hsome
    cases hread
    exact Or.inl ⟨Or.inr ((hseen _).mp hsome), rfl, rfl⟩
  split at hread
  · cases hread
  rename_i hsuccs hsome _
  rw [hseen] at hsome
  refine Or.inr ⟨not_or.mpr ⟨hsuccs, hsome⟩, ?_⟩
  obtain ⟨⟨values, s'⟩, hvalues, hread⟩ := Option.map_eq_some_iff.mp hread
  cases hread
  rcases h.readValues hvalues with ⟨hvals, hat, hfile⟩ | hpast
  · exact Or.inr ⟨by rw [hvals], hat, hfile⟩
  · exact Or.inl hpast

/-- What a thread has stored when it has not read past its file. -/
structure RowsRead (numHoldings : Nat) (type : CFRValueType) (file : List UInt8) (pos : Nat) (seen : List Nat)
    (nodes : List Node) (row row' : ValueRow) (s : Reader) : Prop where
  at_ : ReaderAt s (pos + valueCount numHoldings (newNodes seen nodes) * type.kind.width)
  file_eq : s.file = file
  kept : ∀ nt ∈ seen, row' nt = row nt
  lengths : ∀ node ∈ newNodes seen nodes,
    (row' node.id).map List.length = some (node.numActions numHoldings).toNat
  stored : storedValues row' (newNodes seen nodes) =
    decodeFrom type file pos (valueCount numHoldings (newNodes seen nodes))

theorem ReaderAt.readRows (h : ReaderAt r pos) (hseen : ∀ nt, (row nt).isSome ↔ nt ∈ seen)
    (hread : readRows numHoldings type nodes (row, r) = some (row', s)) :
    RowsRead numHoldings type r.file pos seen nodes row row' s ∨ s.Past := by
  induction nodes generalizing row r pos seen with
  | nil =>
    cases hread
    refine Or.inl ⟨?_, rfl, fun _ _ => rfl, ?_, ?_⟩
    · simpa [valueCount, newNodes] using h
    · simp [newNodes]
    · simp [newNodes, storedValues, valueCount, decodeFrom]
  | cons node nodes ih =>
    obtain ⟨⟨row₁, r₁⟩, hfirst, hrest⟩ := Option.bind_eq_some_iff.mp hread
    rcases h.readRow hseen hfirst with ⟨hskip, rfl, rfl⟩ | ⟨hnew, hpast | ⟨rfl, hat, hfile⟩⟩
    · rcases ih h hseen hrest with ⟨hat, hfile, hkept, hlengths, hstored⟩ | hpast
      · refine Or.inl ⟨?_, hfile, hkept, ?_, ?_⟩ <;> rwa [newNodes, if_pos hskip]
      · exact Or.inr hpast
    · exact Or.inr (hpast.readRows hrest)
    · have hseen' : ∀ nt, (Function.update row node.id
          (some (decodeFrom type r.file pos (node.numActions numHoldings).toNat)) nt).isSome ↔ nt ∈ node.id :: seen := by
        intro nt
        rw [List.mem_cons, ← hseen nt]
        by_cases hnt : nt = node.id
        · subst hnt
          simp
        · simp [hnt]
      rcases ih hat hseen' hrest with ⟨hat', hfile', hkept, hlengths, hstored⟩ | hpast
      · have hrow : row' node.id = some (decodeFrom type r.file pos (node.numActions numHoldings).toNat) := by
          rw [hkept node.id (by simp), Function.update_self]
        refine Or.inl ⟨?_, hfile'.trans hfile, ?_, ?_, ?_⟩
        · rw [newNodes, if_neg hnew, valueCount, List.map_cons, List.sum_cons, Nat.add_mul, ← Nat.add_assoc]
          exact hat'
        · intro nt hnt
          rw [hkept nt (List.mem_cons_of_mem _ hnt), Function.update_of_ne]
          rintro rfl
          exact hnew (Or.inr hnt)
        · rw [newNodes, if_neg hnew]
          intro other hother
          rcases List.mem_cons.mp hother with rfl | hother
          · rw [hrow, Option.map_some, decodeFrom_length]
          · exact hlengths other hother
        · rw [newNodes, if_neg hnew, valueCount, List.map_cons, List.sum_cons, decodeFrom_add, storedValues,
            List.flatMap_cons, hrow, Option.getD_some]
          rw [hfile] at hstored
          congr 1
      · exact Or.inr hpast

end

section

variable {conf : LoadConf} {v w : CFRValues} {p st : Nat} {files : List (Nat × Nat)}

/-- The reader of the file of a player and a street, as it is opened. -/
def LoadConf.openedReader (conf : LoadConf) (p st : Nat) : Option Reader :=
  (conf.initializeReader p st).bind fun found => Reader.opened found.2 (conf.memory p st)

/-- The street values that the first file of a street creates. -/
def LoadConf.created (conf : LoadConf) (files : List (Nat × Nat)) (st : Nat) : Option CFRStreetValues :=
  (files.find? fun f => f.2 = st).bind fun f =>
    (conf.initializeReader f.1 st).map fun found => conf.createStreetValues st found.1

theorem LoadConf.openFile_ok (h : conf.openFile v p st = .ok w) :
    (conf.initializeReader p st).isSome ∧ w.calls = v.calls ∧
      w.readers = Function.update v.readers p (Function.update (v.readers p) st (conf.openedReader p st)) ∧
      ∀ st', w.streetValues st' = (v.streetValues st').or (conf.created [(p, st)] st') := by
  unfold LoadConf.openFile at h
  split at h
  · cases h
  split at h
  · cases h
  split at h
  · cases h
  rename_i type file hfound
  cases h
  refine ⟨by rw [hfound]; rfl, rfl, by simp [LoadConf.openedReader, hfound], ?_⟩
  intro st'
  by_cases hst : st' = st
  · subst hst
    cases hv : v.streetValues st' with
    | none => simp [LoadConf.created, hfound]
    | some table => simp [hv]
  · cases hv : v.streetValues st with
    | none => simp [LoadConf.created, hst, Ne.symm hst]
    | some table => simp [LoadConf.created, Ne.symm hst]

theorem LoadConf.foldlM_openFile
    (h : files.foldlM (fun v f => conf.openFile v f.1 f.2) v = .ok w) :
    w.calls = v.calls ∧ (∀ f ∈ files, (conf.initializeReader f.1 f.2).isSome) ∧
      (∀ p st, w.readers p st = if (p, st) ∈ files then conf.openedReader p st else v.readers p st) ∧
      ∀ st, w.streetValues st = (v.streetValues st).or (conf.created files st) := by
  induction files generalizing v with
  | nil =>
    cases h
    simp [LoadConf.created]
  | cons f files ih =>
    rw [List.foldlM_cons] at h
    cases hfirst : conf.openFile v f.1 f.2 with
    | error code =>
      rw [hfirst] at h
      cases h
    | ok v₁ =>
      rw [hfirst] at h
      obtain ⟨hsome, hcalls, hreaders, hvalues⟩ := LoadConf.openFile_ok hfirst
      obtain ⟨hcalls', hsome', hreaders', hvalues'⟩ := ih h
      refine ⟨hcalls'.trans hcalls, ?_, ?_, ?_⟩
      · intro f' hf'
        rcases List.mem_cons.mp hf' with rfl | hf'
        · exact hsome
        · exact hsome' f' hf'
      · intro p st
        rw [hreaders', hreaders]
        by_cases hp : p = f.1
        · by_cases hst : st = f.2
          · subst hp
            subst hst
            simp
          · subst hp
            simp [hst, Prod.ext_iff]
        · simp [hp, Prod.ext_iff]
      · intro st
        rw [hvalues', hvalues, Option.or_assoc]
        congr 1
        obtain ⟨found, hfound⟩ := Option.isSome_iff_exists.mp hsome
        by_cases hst : f.2 = st
        · subst hst
          simp [LoadConf.created, hfound]
        · simp [LoadConf.created, hst]

theorem LoadConf.mem_files : (p, st) ∈ conf.files ↔ p < conf.numPlayers ∧ st ≤ conf.maxStreet := by
  simp only [LoadConf.files, List.mem_flatMap, List.mem_map, List.mem_range, Prod.mk.injEq]
  constructor
  · rintro ⟨_, hp, _, hst, rfl, rfl⟩
    exact ⟨hp, Nat.le_of_lt_succ hst⟩
  · rintro ⟨hp, hst⟩
    exact ⟨p, hp, st, Nat.lt_succ_of_le hst, rfl, rfl⟩

/-- The street values are created with the file of the first player. -/
theorem LoadConf.created_files (hfile : (p, st) ∈ conf.files) :
    conf.created conf.files st = (conf.initializeReader 0 st).map fun found => conf.createStreetValues st found.1 := by
  obtain ⟨hp, hst⟩ := LoadConf.mem_files.mp hfile
  obtain ⟨n, hn⟩ := Nat.exists_eq_succ_of_ne_zero (show conf.numPlayers ≠ 0 by omega)
  have hfind : conf.files.find? (fun f => f.2 = st) = some (0, st) := by
    have hrange : List.range conf.numPlayers = 0 :: (List.range n).map Nat.succ := by
      rw [hn, List.range_succ_eq_map]
    rw [LoadConf.files, hrange, List.flatMap_cons, List.find?_append, List.find?_map]
    have : (List.range (conf.maxStreet + 1)).find? ((fun f : Nat × Nat => decide (f.2 = st)) ∘ fun st => (0, st)) =
        some st := by
      rw [List.find?_range_eq_some]
      refine ⟨by simp, by simpa using Nat.lt_succ_of_le hst, ?_⟩
      intro j hj
      simp only [Function.comp_apply, Bool.not_eq_eq_eq_not, Bool.not_true, decide_eq_false_iff_not]
      omega
    rw [this]
    rfl
  simp [LoadConf.created, hfind]

mutual

theorem Node.readCalls_player (root : Node) : ∀ node ∈ root.readCalls p st, node.playerActing = p := by
  cases root with
  | mk id street playerActing succs =>
    intro node hnode
    rw [Node.readCalls] at hnode
    split at hnode
    · simp at hnode
    · rcases List.mem_append.mp hnode with hnode | hnode
      · split at hnode
        · rename_i hplayer
          rw [List.mem_singleton.mp hnode]
          exact hplayer.1
        · simp at hnode
      · exact Node.succCalls_player succs node hnode

theorem Node.succCalls_player (succs : List Node) : ∀ node ∈ Node.succCalls p st succs, node.playerActing = p := by
  cases succs with
  | nil => simp [Node.succCalls]
  | cons succ rest =>
    intro node hnode
    rw [Node.succCalls] at hnode
    rcases List.mem_append.mp hnode with hnode | hnode
    · exact Node.readCalls_player succ node hnode
    · exact Node.succCalls_player rest node hnode

end

theorem CFRStreetValues.readNode_some {t u : CFRStreetValues} {node : Node} {r s : Reader}
    (h : t.readNode node r = some (u, s)) :
    readRow t.numHoldings t.myType node (t.data node.playerActing) r = some (u.data node.playerActing, s) ∧
      u.numHoldings = t.numHoldings ∧ u.myType = t.myType ∧ ∀ q ≠ node.playerActing, u.data q = t.data q := by
  obtain ⟨⟨row, s'⟩, hrow, h⟩ := Option.map_eq_some_iff.mp h
  cases h
  refine ⟨by simpa using hrow, rfl, rfl, ?_⟩
  intro q hq
  simp [hq]

/-- The values and the reader of a thread are those of its own calls, made alone. -/
def RunsAlone (conf : LoadConf) (v : CFRValues) (p st : Nat) : Prop :=
  ∃ done found opened table reader, conf.root.readCalls p st = done ++ v.calls p st ∧
    conf.initializeReader 0 st = some found ∧ conf.openedReader p st = some opened ∧
    v.streetValues st = some table ∧ table.numHoldings = conf.numHoldings st ∧ table.myType = conf.myType found.1 ∧
    v.readers p st = some reader ∧
    readRows (conf.numHoldings st) (conf.myType found.1) done (fun _ => none, opened) = some (table.data p, reader)

theorem runsAlone_start (hopen : conf.openFiles = .ok v) (hfile : (p, st) ∈ conf.files) : RunsAlone conf v p st := by
  unfold LoadConf.openFiles at hopen
  split at hopen
  · cases hopen
  obtain ⟨hcalls, hsome, hreaders, hvalues⟩ := LoadConf.foldlM_openFile hopen
  obtain ⟨hp, hst⟩ := LoadConf.mem_files.mp hfile
  obtain ⟨found, hfound⟩ := Option.isSome_iff_exists.mp (hsome (0, st) (LoadConf.mem_files.mpr ⟨by omega, hst⟩))
  obtain ⟨own, hown⟩ := Option.isSome_iff_exists.mp (hsome (p, st) hfile)
  obtain ⟨opened, hopened, -, -⟩ := Reader.opened_at own.2 (conf.memory p st)
  have hreader : conf.openedReader p st = some opened := by
    rw [LoadConf.openedReader, hown]
    exact hopened
  have hvalue : v.streetValues st = some (conf.createStreetValues st found.1) := by
    rw [hvalues, LoadConf.created_files hfile, hfound]
    rfl
  have hread : v.readers p st = some opened := by rw [hreaders, if_pos hfile, hreader]
  exact ⟨[], found, opened, _, opened, by rw [hcalls]; rfl, hfound, hreader, hvalue, rfl, rfl, hread, rfl⟩

/-- A call of one thread leaves what the others have done as it is. -/
theorem runsAlone_step {thread : Nat × Nat} (hstep : LoadStep conf v thread w)
    (h : ∀ f ∈ conf.files, RunsAlone conf v f.1 f.2) (hfile : (p, st) ∈ conf.files) : RunsAlone conf w p st := by
  obtain ⟨p', st'⟩ := thread
  obtain ⟨hthread, hnext⟩ := hstep
  obtain ⟨done', found', opened', table', reader', hcalls', hfound', hopened', htable', hholdings', htype', hreader',
    hrows'⟩ := h (p', st') hthread
  obtain ⟨done, found, opened, table, reader, hcalls, hfound, hopened, htable, hholdings, htype, hreader, hrows⟩ :=
    h (p, st) hfile
  dsimp only at *
  unfold CFRValues.readNext at hnext
  rw [htable', hreader'] at hnext
  cases hnode : v.calls p' st' with
  | nil =>
    rw [hnode] at hnext
    cases hnext
  | cons node rest =>
    rw [hnode] at hnext hcalls'
    obtain ⟨⟨table₁, reader₁⟩, hread, hw⟩ := Option.map_eq_some_iff.mp hnext
    cases hw
    obtain ⟨hrow, hsame, hsameType, hothers⟩ := CFRStreetValues.readNode_some hread
    have hplayer : node.playerActing = p' := Node.readCalls_player conf.root node (by rw [hcalls']; simp)
    rw [hplayer] at hrow hothers
    by_cases hst : st = st'
    · subst hst
      rw [htable] at htable'
      cases htable'
      by_cases hp : p = p'
      · subst hp
        refine ⟨done' ++ [node], found', opened', table₁, reader₁, ?_, hfound', hopened', by simp,
          hsame.trans hholdings', hsameType.trans htype', by simp, ?_⟩
        · simpa using hcalls'
        · rw [hholdings', htype'] at hrow
          rw [readRows_append, hrows']
          exact hrow
      · refine ⟨done, found, opened, table₁, reader, ?_, hfound, hopened, by simp, hsame.trans hholdings,
          hsameType.trans htype, ?_, ?_⟩
        · simpa [hp] using hcalls
        · simpa [hp] using hreader
        · rw [hothers p hp]
          exact hrows
    · refine ⟨done, found, opened, table, reader, ?_, hfound, hopened, by simpa [hst] using htable, hholdings, htype,
        ?_, hrows⟩
      · rw [hcalls]
        by_cases hp : p = p'
        · subst hp
          simp [hst]
        · simp [hp]
      · by_cases hp : p = p'
        · subst hp
          simpa [hst] using hreader
        · simpa [hp] using hreader

theorem runsAlone {trace : List (Transition CFRValues (Nat × Nat))} (run : LoadRun conf trace v) :
    ∀ f ∈ conf.files, RunsAlone conf v f.1 f.2 := by
  refine run.always (P := fun v => ∀ f ∈ conf.files, RunsAlone conf v f.1 f.2) ?_ ?_
  · intro v hopen f hf
    exact runsAlone_start hopen hf
  · intro v thread w hstep h f hf
    exact runsAlone_step hstep h hf

/-- A load that is accepted has stored each file in the type of its street. -/
theorem RunsAlone.accepted (h : RunsAlone conf v p st) (hfile : (p, st) ∈ conf.files) (hdone : v.finished conf)
    (hresult : v.result conf = errOk) :
    ∃ type file found table, conf.initializeReader p st = some (type, file) ∧ conf.initializeReader 0 st = some found ∧
      v.streetValues st = some table ∧
      file.length = valueCount (conf.numHoldings st) (conf.valueNodes p st) * (conf.myType found.1).kind.width ∧
      (∀ node ∈ conf.valueNodes p st,
        (table.data p node.id).map List.length = some (node.numActions (conf.numHoldings st)).toNat) ∧
      storedValues (table.data p) (conf.valueNodes p st) =
        decodeFrom (conf.myType found.1) file 0 (valueCount (conf.numHoldings st) (conf.valueNodes p st)) := by
  obtain ⟨done, found, opened, table, reader, hcalls, hfound, hopened, htable, -, -, hreader, hrows⟩ := h
  rw [hdone (p, st) hfile, List.append_nil] at hcalls
  subst hcalls
  have hend : reader.atEnd = true := by
    unfold CFRValues.result at hresult
    split at hresult
    · rename_i hall
      have := List.all_eq_true.mp hall (p, st) hfile
      simpa [hreader] using this
    · cases hresult
  obtain ⟨⟨type, file⟩, hown, hopen⟩ := Option.bind_eq_some_iff.mp hopened
  obtain ⟨opened', hopened', hat, hsame⟩ := Reader.opened_at file (conf.memory p st)
  rw [hopen] at hopened'
  cases hopened'
  have hseen : ∀ nt, ((fun _ => none : ValueRow) nt).isSome ↔ nt ∈ ([] : List Nat) := by simp
  rcases hat.readRows hseen hrows with hread | hpast
  · have hsize := hread.at_.atEnd_iff.mp hend
    rw [hread.file_eq, hsame, Nat.zero_add] at hsize
    refine ⟨type, file, found, table, hown, hfound, htable, hsize.symm, hread.lengths, ?_⟩
    rw [← hsame]
    exact hread.stored
  · rw [hpast.not_atEnd] at hend
    cases hend

theorem CFRValueType.eq_of_count {a b : CFRValueType} {n : Nat} (hn : n ≠ 0)
    (h : n * a.kind.width / b.kind.width = n) : a = b := by
  cases a <;> cases b <;> simp only [CFRValueType.kind, ReadKind.width] at h <;> first | rfl | omega

/-- When a load is accepted, the values of a player on a street are those of the file of its own type
exactly if the street is stored in that type or there are no values. -/
theorem read_multiThread_iff {trace : List (Transition CFRValues (Nat × Nat))} (run : LoadRun conf trace v)
    (hdone : v.finished conf) (hresult : v.result conf = errOk) (hp : p < conf.numPlayers) (hst : st ≤ conf.maxStreet) :
    conf.StoresFile v p st ↔ conf.ownType p st := by
  have hfile : (p, st) ∈ conf.files := LoadConf.mem_files.mpr ⟨hp, hst⟩
  obtain ⟨type, file, found, table, hown, hfound, htable, hsize, hlengths, hstored⟩ :=
    (runsAlone run _ hfile).accepted hfile hdone hresult
  constructor
  · rintro ⟨type', file', table', hown', htable', -, hvalues⟩
    rw [hown] at hown'
    cases hown'
    rw [htable] at htable'
    cases htable'
    have hcount := congrArg List.length hvalues
    rw [hstored, decodeFile, decodeFrom_length, decodeFrom_length, hsize] at hcount
    by_cases hzero : valueCount (conf.numHoldings st) (conf.valueNodes p st) = 0
    · exact Or.inr hzero
    · left
      rw [hown, hfound]
      exact congrArg some (CFRValueType.eq_of_count hzero hcount.symm).symm
  · intro hcond
    refine ⟨type, file, table, hown, htable, hlengths, ?_⟩
    rw [hstored]
    have hwidth := (conf.myType found.1).kind.width_bounds
    rcases hcond with htype | hzero
    · rw [hown, hfound] at htype
      have htype : type = conf.myType found.1 := Option.some.inj htype
      rw [htype, decodeFile, hsize, Nat.mul_div_cancel _ hwidth.1]
    · rw [hzero, Nat.zero_mul] at hsize
      rw [hzero, decodeFile, hsize, Nat.zero_div]
      rfl

end

/-- A tree in which both players choose once, on one street with one holding. -/
def smallTree : Node := .mk 0 0 0 [.mk 0 0 0 [], .mk 0 0 1 [.mk 1 0 0 [], .mk 2 0 0 []]]

/-- A load of a file of bytes for the first player and of a file for the second. -/
def smallLoad (type : CFRValueType) (file : List UInt8) : LoadConf where
  numPlayers := 2
  maxStreet := 0
  players := fun _ => true
  streets := fun _ => true
  numHoldings := fun _ => 1
  root := smallTree
  onlyP := -1
  quantize := false
  dir := fun p _ other =>
    if p = 0 then if other = .char then some [7, 8] else none else if other = type then some file else none
  memory := fun _ _ _ => 0

def LoadConf.opened (conf : LoadConf) : CFRValues :=
  match conf.openFiles with
  | .ok v => v
  | .error _ => ⟨fun _ => none, fun _ _ => none, fun _ _ => []⟩

def LoadConf.perform (conf : LoadConf) (v : CFRValues) (thread : Nat × Nat) : Option ((Nat × Nat) × CFRValues) :=
  if thread ∈ conf.files then (v.readNext thread.1 thread.2).map fun w => (thread, w) else none

theorem LoadConf.perform_step (conf : LoadConf) (v : CFRValues) (thread e : Nat × Nat) (w : CFRValues)
    (h : conf.perform v thread = some (e, w)) : LoadStep conf v e w := by
  unfold LoadConf.perform at h
  split at h
  · rename_i hthread
    obtain ⟨w', hnext, h⟩ := Option.map_eq_some_iff.mp h
    cases h
    exact ⟨hthread, hnext⟩
  · cases h

/-- The state after calls of the given threads, or the first one where these cannot be made. -/
def LoadConf.after (conf : LoadConf) (threads : List (Nat × Nat)) : List (Transition CFRValues (Nat × Nat)) × CFRValues :=
  (performAll conf.perform threads ([], conf.opened)).getD ([], conf.opened)

theorem LoadConf.after_run {conf : LoadConf} (hopen : conf.openFiles.isOk = true) (threads : List (Nat × Nat)) :
    LoadRun conf (conf.after threads).1 (conf.after threads).2 := by
  have start : LoadRun conf [] conf.opened := by
    refine .start ?_
    unfold LoadConf.opened
    cases h : conf.openFiles with
    | ok v => rfl
    | error code =>
      rw [h] at hopen
      cases hopen
  unfold LoadConf.after
  cases h : performAll conf.perform threads ([], conf.opened) with
  | none => exact start
  | some last => exact StepRun.performAll conf.perform_step start h

instance (conf : LoadConf) (v : CFRValues) : Decidable (v.finished conf) := inferInstanceAs (Decidable (∀ _ ∈ _, _ = _))

/-- Two files of bytes, read by two threads in turn. -/
theorem read_multiThread_bytes :
    (smallLoad .char [1, 2]).StoresFile ((smallLoad .char [1, 2]).after [(1, 0), (0, 0)]).2 1 0 :=
  (read_multiThread_iff (LoadConf.after_run (by decide +kernel) [(1, 0), (0, 0)]) (by decide +kernel)
    (by decide +kernel) (by decide) (by decide)).mpr (Or.inl (by decide +kernel))

/-- A file with one short of the second player is accepted, and stored as two bytes. -/
theorem short_file_read_as_bytes :
    ∃ trace v, LoadRun (smallLoad .short [1, 2]) trace v ∧ v.finished (smallLoad .short [1, 2]) ∧
      v.result (smallLoad .short [1, 2]) = errOk ∧
      (v.streetValues 0).bind (fun table => table.data 1 0) = some [.integer 1, .integer 2] ∧
      decodeFile .short [1, 2] = [.integer 513] ∧ ¬(smallLoad .short [1, 2]).StoresFile v 1 0 := by
  have hstored : (((smallLoad .short [1, 2]).after [(0, 0), (1, 0)]).2.streetValues 0).bind
      (fun table => table.data 1 0) = some [.integer 1, .integer 2] := by
    decide +kernel
  have hdecoded : decodeFile .short [1, 2] = [.integer 513] := by
    decide +kernel
  refine ⟨_, _, LoadConf.after_run (by decide +kernel) [(0, 0), (1, 0)], by decide +kernel, by decide +kernel,
    hstored, hdecoded, ?_⟩
  rintro ⟨type, file, table, hown, htable, -, hvalues⟩
  have hfound : (smallLoad .short [1, 2]).initializeReader 1 0 = some (.short, [1, 2]) := by
    decide +kernel
  rw [hfound] at hown
  cases hown
  rw [htable] at hstored
  have hnodes : ((smallLoad .short [1, 2]).valueNodes 1 0).map Node.id = [0] := by
    decide +kernel
  have hlist : storedValues (table.data 1) ((smallLoad .short [1, 2]).valueNodes 1 0) =
      (((smallLoad .short [1, 2]).valueNodes 1 0).map Node.id).flatMap fun nt => (table.data 1 nt).getD [] := by
    rw [storedValues, List.flatMap_map]
  have hone : table.data 1 0 = some [.integer 1, .integer 2] := hstored
  rw [hlist, hnodes, hdecoded] at hvalues
  simp [hone] at hvalues

end MasterAI
