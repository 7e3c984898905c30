import MasterAI.ActionInfoText
import MasterAI.RunGame

namespace MasterAI

structure CFRKey where
  st : Int
  nodeId : Int
  pa : Int
  offset : Int
  numSucc : Int
  deriving DecidableEq, Repr

/-- The text of a key, as long as it is. -/
def keyText (key : CFRKey) (version : List Char) : List Char :=
  "\x7b\"mode\":1, \"nt\":".toList ++ printInt key.nodeId ++ ", \"st\":".toList ++ printInt key.st ++
    ", \"pa\":".toList ++ printInt key.pa ++ ", \"offset\":".toList ++ printInt key.offset ++
    ", \"num_succ\":".toList ++ printInt key.numSucc ++ ",\"version\":".toList ++ version ++
    "\x7d".toList

/-- `CfrSvrClient::ConvertKeyToRequestStr`, cut at the end of its buffer. -/
def convertKeyToRequestStr (key : CFRKey) (version : List Char) : List Char := (keyText key version).take 1023

/-- The line that `RequestActionFromCfr` formats, as long as it is. -/
def requestText (transID : List Char) (roleID : UInt32) (roomID : UInt64) (q : CfrRequest) : List Char :=
  "QUERY_ACTION#TransID=".toList ++ transID ++ "#KEY=".toList ++ q.key ++ "#ActionInfo=".toList ++
    q.actionInfo ++ "#RoleID=".toList ++ printNat roleID.toNat ++ "#RoomID=".toList ++
    printNat roomID.toNat ++ "#RobotID=".toList ++ printInt q.robotID ++ "#HandID=".toList ++
    printNat q.handID.toNat ++ "#Round=".toList ++ printNat q.round ++ "#ActionSeq=".toList ++
    printNat q.actionSeq ++ "#\r\n".toList

def requestLine (transID : List Char) (roleID : UInt32) (roomID : UInt64) (q : CfrRequest) : List Char :=
  (requestText transID roleID roomID q).take 1022

def convertValToStr (vals : List UInt32) : List Char :=
  List.intercalate [','] (vals.map fun v => printNat v.toNat)

/-- The text that `JointStr` formats, as long as it is. -/
def jointText (res note vals : List Char) : List Char :=
  "\x7b\"res\":\"".toList ++ res ++ "\", \"note\":\"".toList ++ note ++ "\", \"vals\":\"".toList ++ vals ++
    "\"\x7d".toList

def jointStr (res note vals : List Char) : List Char := (jointText res note vals).take 1023

/-- The part of a request that `QueryAction` sends back: up to the character before the first carriage
return. The difference wraps around where there is none, or where it comes first. -/
def previousStr (packet : List Char) : List Char :=
  match packet.findIdx? (· = '\r') with
  | some (i + 1) => packet.take i
  | some 0 => packet
  | none => packet

def getValueBykey (text key delimiter : List Char) : List Char :=
  match strstr key text with
  | none => []
  | some found =>
    let start := found.drop (key.length + 1)
    match strstr delimiter start with
    | some rest => start.take (start.length - rest.length)
    | none =>
      match strstr "\r\n".toList start with
      | some rest => start.take (start.length - rest.length)
      | none => start

/-- `strtol` and `strtoll` on 64 bits, which saturate. -/
def strtoll (text : List Char) : Int :=
  match scanNumber text with
  | none => 0
  | some (negative, n, _) =>
    if negative then -(min n 9223372036854775808 : Nat) else (min n 9223372036854775807 : Nat)

def strtoi64 (text : List Char) : Int :=
  if strtoll text = 0 ∨ text.head? = some '0' then 0 else strtoll text

def strtoi32 (text : List Char) : Int :=
  if strtoll text = 0 ∨ text.head? = some '0' then 0 else wrapInt32 (strtoll text)

/-- What `QueryActionResp` takes from a line. -/
structure ReplyFields where
  robotID : Nat
  handID : Nat
  round : Nat
  actionSeq : Nat
  roleID : Nat
  roomID : Nat
  response : List Char
  actionInfo : List Char
  deriving DecidableEq, Repr

def replyFields (packet : List Char) : ReplyFields where
  robotID := (strtoi64 (getValueBykey packet "RobotID".toList ['#']) % 18446744073709551616).toNat
  handID := (strtoi32 (getValueBykey packet "HandID".toList ['#']) % 4294967296).toNat
  round := (strtoi32 (getValueBykey packet "Round".toList ['#']) % 4294967296).toNat
  actionSeq := (strtoi32 (getValueBykey packet "ActionSeq".toList ['#']) % 256).toNat
  roleID := (strtoi64 (getValueBykey packet "RoleID".toList ['#']) % 4294967296).toNat
  roomID := (strtoi64 (getValueBykey packet "RoomID".toList ['#']) % 18446744073709551616).toNat
  response := getValueBykey packet "Resp".toList ['#']
  actionInfo := getValueBykey packet "ActionInfo".toList ['#']

/-- The names that `QueryActionResp` searches for. -/
def keyNames : List (List Char) :=
  ["RobotID".toList, "HandID".toList, "Round".toList, "ActionSeq".toList, "RoleID".toList, "RoomID".toList,
    "Resp".toList, "ActionInfo".toList]

/-- A request as its types and its makers leave it. -/
structure CfrRequest.Formed (key : CFRKey) (version : List Char) (q : CfrRequest) : Prop where
  key : q.key = convertKeyToRequestStr key version
  actionInfo : ∃ m, q.actionInfo = (getActionInfo m).toText
  robotID : -9223372036854775808 ≤ q.robotID ∧ q.robotID < 9223372036854775808
  round : q.round < 4294967296
  actionSeq : q.actionSeq < 256

/-- The values as the server writes them for the client. -/
def respText (vals : List UInt32) : List Char := jointText "OK".toList "null".toList (convertValToStr vals)

/-- A text that holds none of the names. -/
def NameFree (text : List Char) : Prop := ∀ key ∈ keyNames, ¬key <:+: text

/-- A text that no search stops in. -/
structure CleanText (text : List Char) : Prop where
  hash : '#' ∉ text
  cr : '\r' ∉ text
  keys : NameFree text

/-- Named values, each behind a separator. -/
def fieldsText (fields : List (List Char × List Char)) : List Char :=
  fields.flatMap fun f => '#' :: (f.1 ++ '=' :: f.2)

def requestFields (transID : List Char) (roleID : UInt32) (roomID : UInt64) (q : CfrRequest) :
    List (List Char × List Char) :=
  [("TransID".toList, transID), ("KEY".toList, q.key), ("ActionInfo".toList, q.actionInfo),
    ("RoleID".toList, printNat roleID.toNat), ("RoomID".toList, printNat roomID.toNat),
    ("RobotID".toList, printInt q.robotID), ("HandID".toList, printNat q.handID.toNat),
    ("Round".toList, printNat q.round), ("ActionSeq".toList, printNat q.actionSeq)]

/-- The names of the fields in their order. -/
def fieldNames : List (List Char) :=
  ["TransID".toList, "KEY".toList, "ActionInfo".toList, "RoleID".toList, "RoomID".toList, "RobotID".toList,
    "HandID".toList, "Round".toList, "ActionSeq".toList]

/-- The request up to its last separator. -/
def requestBody (transID : List Char) (roleID : UInt32) (roomID : UInt64) (q : CfrRequest) : List Char :=
  "QUERY_ACTION".toList ++ fieldsText (requestFields transID roleID roomID q)

theorem requestText_eq (transID : List Char) (roleID : UInt32) (roomID : UInt64) (q : CfrRequest) :
    requestText transID roleID roomID q = requestBody transID roleID roomID q ++ "#\r\n".toList := by
  unfold requestText requestBody fieldsText requestFields
  generalize printNat roleID.toNat = role
  generalize printNat roomID.toNat = room
  generalize printInt q.robotID = robot
  generalize printNat q.handID.toNat = hand
  generalize printNat q.round = round
  generalize printNat q.actionSeq = seq
  simp only [List.flatMap_cons, List.flatMap_nil, List.append_assoc, List.append_nil, String.reduceToList]
  simp only [List.cons_append, List.nil_append]

section

variable {key head v more : List Char} {before : List (List Char × List Char)}

/-- The search for a name passes over the fields before its own. -/
theorem strstr_fields (hhash : '#' ∉ key) (heq : '=' ∉ key) (hhead : ¬key <:+: head)
    (hbefore : ∀ f ∈ before, ¬key <:+: f.1 ∧ ¬key <:+: f.2) :
    strstr key (head ++ (fieldsText before ++ '#' :: (key ++ more))) = some (key ++ more) := by
  induction before generalizing head with
  | nil =>
    have hfound : strstr key (key ++ more) = some (key ++ more) := by
      cases key with
      | nil => exact absurd List.nil_infix hhead
      | cons c key => simp [strstr]
    rw [fieldsText, List.flatMap_nil, List.nil_append, strstr_skip hhash hhead, hfound]
  | cons f before ih =>
    obtain ⟨hname, hvalue⟩ := hbefore f (by simp)
    have hrest := ih hvalue fun e he => hbefore e (by simp [he])
    have hsplit : head ++ (fieldsText (f :: before) ++ '#' :: (key ++ more)) =
        head ++ '#' :: (f.1 ++ '=' :: (f.2 ++ (fieldsText before ++ '#' :: (key ++ more)))) := by
      simp [fieldsText]
    rw [hsplit, strstr_skip hhash hhead, strstr_skip heq hname, hrest]

theorem take_length_sub (a b : List Char) : (a ++ b).take ((a ++ b).length - b.length) = a := by
  rw [List.length_append, Nat.add_sub_cancel, List.take_left]

theorem getValueBykey_field (hhash : '#' ∉ key) (heq : '=' ∉ key) (hhead : ¬key <:+: head)
    (hbefore : ∀ f ∈ before, ¬key <:+: f.1 ∧ ¬key <:+: f.2) (hv : '#' ∉ v) :
    getValueBykey (head ++ (fieldsText before ++ '#' :: (key ++ '=' :: (v ++ '#' :: more)))) key ['#'] = v := by
  have hstart : (key ++ '=' :: (v ++ '#' :: more)).drop (key.length + 1) = v ++ '#' :: more := by
    rw [List.drop_append, List.drop_of_length_le (by omega)]
    simp
  have hend : strstr ['#'] (v ++ '#' :: more) = some ('#' :: more) := strstr_append hv
  unfold getValueBykey
  rw [strstr_fields hhash heq hhead hbefore]
  simp only [hstart, hend]
  exact take_length_sub v ('#' :: more)

theorem getValueBykey_last (hhash : '#' ∉ key) (heq : '=' ∉ key) (hhead : ¬key <:+: head)
    (hbefore : ∀ f ∈ before, ¬key <:+: f.1 ∧ ¬key <:+: f.2) (hv : '#' ∉ v) (hcr : '\r' ∉ v) :
    getValueBykey (head ++ (fieldsText before ++ '#' :: (key ++ '=' :: (v ++ "\r\n".toList)))) key ['#'] = v := by
  have hstart : (key ++ '=' :: (v ++ "\r\n".toList)).drop (key.length + 1) = v ++ "\r\n".toList := by
    rw [List.drop_append, List.drop_of_length_le (by omega)]
    simp
  have hnone : strstr ['#'] (v ++ "\r\n".toList) = none := by
    apply strstr_eq_none
    apply not_infix_of_not_mem (c := '#') (by simp)
    simp [hv]
  have hend : strstr "\r\n".toList (v ++ "\r\n".toList) = some "\r\n".toList :=
    strstr_append (n := ['\n']) (r := []) hcr
  unfold getValueBykey
  rw [strstr_fields hhash heq hhead hbefore]
  simp only [hstart, hnone, hend]
  exact take_length_sub v "\r\n".toList

end

section

variable {n : Nat} {x : Int}

theorem head_printNat (hn : 0 < n) : (printNat n).head? ≠ some '0' := by
  induction n using Nat.strongRecOn with
  | ind n ih =>
    unfold printNat
    rw [Nat.toDigits_eq_if (by omega)]
    by_cases hsmall : n < 10
    · rw [if_pos hsmall]
      have hdigit : ∀ d : Nat, d < 10 → 0 < d → ([d.digitChar] : List Char).head? ≠ some '0' := by
        decide
      exact hdigit n hsmall hn
    · rw [if_neg hsmall, List.head?_append_of_ne_nil _ Nat.toDigits_ne_nil]
      exact ih (n / 10) (by omega) (by omega)

theorem scan_printNat (n : Nat) : scanNumber (printNat n) = some (false, n, []) := by
  have hstops : StopsNumber [] := by
    intro c hc
    cases hc
  have hscan := scanNumber_printNat (n := n) hstops
  rwa [List.append_nil] at hscan

theorem strtoll_printNat (n : Nat) : strtoll (printNat n) = (min n 9223372036854775807 : Nat) := by
  unfold strtoll
  rw [scan_printNat]
  rfl

theorem strtoll_printInt (hx : -9223372036854775808 ≤ x ∧ x < 9223372036854775808) :
    strtoll (printInt x) = x := by
  unfold printInt
  by_cases hneg : x < 0
  · have hstops : StopsNumber [] := by
      intro c hc
      cases hc
    have hscan := scanNumber_printNat_minus (n := x.natAbs) hstops
    rw [List.append_nil] at hscan
    rw [if_pos hneg]
    unfold strtoll
    rw [hscan]
    simp only [if_true]
    omega
  · rw [if_neg hneg, strtoll_printNat]
    omega

/-- A leading zero is taken for a failed conversion, which gives zero too. -/
theorem strtoi64_printInt (hx : -9223372036854775808 ≤ x ∧ x < 9223372036854775808) :
    strtoi64 (printInt x) = x := by
  have hvalue := strtoll_printInt hx
  unfold strtoi64
  by_cases hzero : x = 0
  · rw [hvalue, if_pos (Or.inl hzero), hzero]
  · have hhead : (printInt x).head? ≠ some '0' := by
      unfold printInt
      by_cases hneg : x < 0
      · rw [if_pos hneg]
        simp
      · rw [if_neg hneg]
        exact head_printNat (by omega)
    rw [hvalue, if_neg (by simp [hzero, hhead])]

theorem printInt_natCast (n : Nat) : printInt (n : Int) = printNat n := by
  unfold printInt
  rw [if_neg (by omega), Int.natAbs_natCast]

theorem strtoi64_printNat (hn : n < 9223372036854775808) : strtoi64 (printNat n) = n := by
  rw [← printInt_natCast]
  exact strtoi64_printInt ⟨by omega, by omega⟩

/-- An unsigned number from the upper half saturates. -/
theorem strtoi64_large (hn : 9223372036854775808 ≤ n) : strtoi64 (printNat n) = 9223372036854775807 := by
  have hvalue : strtoll (printNat n) = 9223372036854775807 := by
    rw [strtoll_printNat]
    omega
  have hhead := head_printNat (n := n) (by omega)
  unfold strtoi64
  rw [hvalue, if_neg (by simp [hhead])]

theorem strtoi32_printNat (hn : n < 4294967296) : (strtoi32 (printNat n) % 4294967296).toNat = n := by
  have hvalue : strtoll (printNat n) = n := by
    rw [strtoll_printNat]
    omega
  unfold strtoi32
  rw [hvalue]
  by_cases hzero : n = 0
  · rw [if_pos (Or.inl (by omega)), hzero]
    rfl
  · have hhead := head_printNat (n := n) (by omega)
    rw [if_neg (by simp [hhead, hzero])]
    simp only [wrapInt32, Int.bmod_def]
    omega

theorem strtoi32_byte (hn : n < 256) : (strtoi32 (printNat n) % 256).toNat = n := by
  have hvalue := strtoi32_printNat (n := n) (by omega)
  omega

end

/-- A character that neither separates fields nor begins one of the searched names. -/
def plainChar (c : Char) : Bool := c ∉ ['R', 'H', 'A', '#', '\r']

def PlainText (text : List Char) : Prop := ∀ c ∈ text, plainChar c = true

instance (text : List Char) : Decidable (PlainText text) :=
  decidable_of_iff (text.all plainChar = true) List.all_eq_true

theorem keyNames_spec : ∀ key ∈ keyNames, '#' ∉ key ∧ '=' ∉ key ∧ ':' ∉ key ∧ '\x7d' ∉ key ∧
    ∃ c ∈ key, plainChar c = false := by
  have hall : keyNames.all (fun key => decide ('#' ∉ key ∧ '=' ∉ key ∧ ':' ∉ key ∧ '\x7d' ∉ key) &&
      key.any fun c => !plainChar c) = true := by
    decide
  intro key hkey
  simpa [and_assoc] using List.all_eq_true.mp hall key hkey

section

variable {a b : List Char} {x : Int}

theorem PlainText.append (ha : PlainText a) (hb : PlainText b) : PlainText (a ++ b) := by
  intro c hc
  rcases List.mem_append.mp hc with hc | hc
  · exact ha c hc
  · exact hb c hc

theorem PlainText.cleanText (h : PlainText a) : CleanText a where
  hash := fun hc => absurd (h _ hc) (by decide)
  cr := fun hc => absurd (h _ hc) (by decide)
  keys := by
    intro key hkey hin
    obtain ⟨-, -, -, -, c, hc, hplain⟩ := keyNames_spec key hkey
    have hc' := h c (hin.subset hc)
    rw [hplain] at hc'
    cases hc'

theorem plainChar_of_isDigit {c : Char} (h : c.isDigit = true) : plainChar c = true := by
  have hnone : ∀ d ∈ ['R', 'H', 'A', '#', '\r'], d.isDigit = false := by
    have hall : (['R', 'H', 'A', '#', '\r'].all fun d => !d.isDigit) = true := by decide
    intro d hd
    simpa using List.all_eq_true.mp hall d hd
  simp only [plainChar, decide_eq_true_eq]
  intro hc
  rw [hnone c hc] at h
  cases h

theorem plainText_printNat (n : Nat) : PlainText (printNat n) :=
  fun c hc => plainChar_of_isDigit (printNat_digits c hc)

theorem plainText_printInt (x : Int) : PlainText (printInt x) := by
  intro c hc
  rcases printInt_chars c hc with h | rfl
  · exact plainChar_of_isDigit h
  · decide

theorem plainText_printInt02 (x : Int) : PlainText (printInt02 x) := by
  have hdigits := plainText_printNat x.natAbs
  have hzero : PlainText ['0'] := by decide
  have hminus : PlainText ['-'] := by decide
  unfold printInt02
  dsimp only
  split <;> split
  · exact hminus.append (hzero.append hdigits)
  · exact hminus.append hdigits
  · exact hzero.append hdigits
  · exact hdigits

theorem plainText_flatMap {α : Type} {l : List α} {f : α → List Char} (h : ∀ x ∈ l, PlainText (f x)) :
    PlainText (l.flatMap f) := by
  intro c hc
  obtain ⟨x, hx, hc⟩ := List.mem_flatMap.mp hc
  exact h x hx c hc

theorem plainText_intercalate {separator : List Char} {l : List (List Char)} (hs : PlainText separator)
    (h : ∀ t ∈ l, PlainText t) : PlainText (List.intercalate separator l) := by
  induction l with
  | nil => intro c hc; cases hc
  | cons t l ih =>
    cases l with
    | nil =>
      rw [List.intercalate_singleton]
      exact h t (by simp)
    | cons u l =>
      rw [List.intercalate_cons_cons]
      exact ((h t (by simp)).append hs).append (ih fun v hv => h v (by simp [hv]))

theorem PlainText.take (h : PlainText a) (n : Nat) : PlainText (a.take n) :=
  fun c hc => h c (List.mem_of_mem_take hc)

/-- The text of a situation holds no upper-case letter and no separator. -/
theorem plainText_toText (m : MatchState) : PlainText (getActionInfo m).toText := by
  have hcomma : PlainText [','] := by decide
  have hseq : PlainText (getActionSeq m) := by
    apply plainText_flatMap
    intro st _
    apply PlainText.append
    · split
      · decide
      · decide
    · apply plainText_flatMap
      intro e _
      unfold getSingleActionStr
      split
      · decide
      · decide
      · exact PlainText.append (a := ['r']) (by decide) (plainText_printInt _)
      · decide
  have hcards : ∀ l : List Int, PlainText (List.intercalate [','] (l.map printInt02)) := by
    intro l
    apply plainText_intercalate hcomma
    intro t ht
    obtain ⟨x, -, rfl⟩ := List.mem_map.mp ht
    exact plainText_printInt02 x
  unfold ActionInfo.toText
  apply PlainText.take
  refine PlainText.append ?_ hseq
  refine PlainText.append ?_ (by decide)
  refine PlainText.append ?_ (plainText_printInt _)
  refine PlainText.append ?_ (by decide)
  refine PlainText.append ?_ (plainText_printInt _)
  refine PlainText.append ?_ (by decide)
  refine PlainText.append ?_ (plainText_printInt _)
  refine PlainText.append ?_ (by decide)
  refine PlainText.append ?_ (hcards _)
  refine PlainText.append ?_ (by decide)
  exact PlainText.append (by decide) (hcards _)

end

section

variable {key : CFRKey} {version : List Char}

/-- The text of a key is its version between plain texts. -/
theorem keyText_eq (key : CFRKey) (version : List Char) :
    ∃ numbers, PlainText numbers ∧ keyText key version = numbers ++ ':' :: (version ++ '\x7d' :: []) := by
  refine ⟨"\x7b\"mode\":1, \"nt\":".toList ++ printInt key.nodeId ++ ", \"st\":".toList ++ printInt key.st ++
    ", \"pa\":".toList ++ printInt key.pa ++ ", \"offset\":".toList ++ printInt key.offset ++
    ", \"num_succ\":".toList ++ printInt key.numSucc ++ ",\"version\"".toList, ?_, ?_⟩
  · refine PlainText.append ?_ (by decide)
    refine PlainText.append ?_ (plainText_printInt _)
    refine PlainText.append ?_ (by decide)
    refine PlainText.append ?_ (plainText_printInt _)
    refine PlainText.append ?_ (by decide)
    refine PlainText.append ?_ (plainText_printInt _)
    refine PlainText.append ?_ (by decide)
    refine PlainText.append ?_ (plainText_printInt _)
    refine PlainText.append ?_ (by decide)
    exact PlainText.append (by decide) (plainText_printInt _)
  · unfold keyText
    generalize printInt key.nodeId = nodeId
    generalize printInt key.st = st
    generalize printInt key.pa = pa
    generalize printInt key.offset = offset
    generalize printInt key.numSucc = numSucc
    simp

/-- A character that no plain text has stands in the key just where it stands in the version. -/
theorem mem_keyText_iff {c : Char} (hc : plainChar c = false) : c ∈ keyText key version ↔ c ∈ version := by
  obtain ⟨numbers, hplain, htext⟩ := keyText_eq key version
  have hne : c ≠ ':' ∧ c ≠ '\x7d' := by
    constructor
    · rintro rfl
      cases hc
    · rintro rfl
      cases hc
  have hnumbers : c ∉ numbers := by
    intro hmem
    have hplain' := hplain c hmem
    rw [hc] at hplain'
    cases hplain'
  rw [htext]
  simp [hne.1, hne.2, hnumbers]

theorem NameFree.ofInner {a b : List Char} (h : NameFree b) (hab : a <:+: b) : NameFree a :=
  fun name hname hin => h name hname (hin.trans hab)

/-- A name is found in the key only where it is found in the version. -/
theorem NameFree.keyText (h : NameFree version) (key : CFRKey) : NameFree (keyText key version) := by
  intro name hname hin
  obtain ⟨-, -, hcolon, hbrace, -⟩ := keyNames_spec name hname
  obtain ⟨numbers, hplain, htext⟩ := keyText_eq key version
  rw [htext] at hin
  rcases infix_append_cons hcolon hin with hin | hin
  · exact hplain.cleanText.keys name hname hin
  · rcases infix_append_cons hbrace hin with hin | hin
    · exact h name hname hin
    · exact h name hname (hin.trans (List.nil_infix))

theorem NameFree.convertKeyToRequestStr (h : NameFree version) (key : CFRKey) :
    NameFree (convertKeyToRequestStr key version) :=
  (NameFree.keyText h key).ofInner (List.take_prefix 1023 _).isInfix

end

end MasterAI
