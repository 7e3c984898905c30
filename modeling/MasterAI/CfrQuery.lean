import Mathlib.Data.List.TakeWhile
import MasterAI.CfrKeys
import MasterAI.CfrReply

namespace MasterAI

/-- A parsed value, by the conversions of its members; nothing where a conversion throws. -/
structure JsonValue where
  asInt : List Char → Option Int
  asString : List Char → Option (List Char)

/-- What `GetVals` works with: the configuration, the tables, the reader of the values, the conversion of a stored
double and the number that `rand` gives after its seeding. -/
structure DataModule where
  initFlag : Bool
  finalVersion : List Char
  randomFlag : Bool
  conf : LoadConf
  cfrValues : CFRValues
  parse : List Char → Option JsonValue
  ofDouble : List UInt8 → Option UInt32
  rand : Nat

/-- The conversion of a stored value to an unsigned integer; nothing where it is undefined. -/
def CfrValue.toUnsigned (ofDouble : List UInt8 → Option UInt32) : CfrValue → Option UInt32
  | .integer i => some (UInt32.ofNat (i % 4294967296).toNat)
  | .double bits => ofDouble bits

/-- `GenRandomValStr`; nothing where the remainder is undefined. -/
def genRandomValStr (rand : Nat) (numSucc : Int) : Option (List Char) :=
  if numSucc = 0 then none
  else some (List.intercalate [','] ((List.range numSucc.toNat).map fun i =>
    if (i : Int) = Int.tmod rand numSucc then printInt 0 else printInt (wrapInt32 (i * 100 + 100))))

namespace DataModule

def checkVersion (m : DataModule) (version : List Char) : Bool := decide (version = m.finalVersion)

/-- The values of a key after their conversion. -/
def strategyVals (m : DataModule) (key : CFRKey) : Option (List UInt32) :=
  (m.cfrValues.getOneStrategyVals key).bind fun values => values.mapM (CfrValue.toUnsigned m.ofDouble)

/-- `GetVals`; nothing where the program is left. -/
def getVals (m : DataModule) (request : List Char) : Option (List Char) :=
  if m.initFlag = false then some (jointStr "Error".toList "Not Init Yet".toList "null".toList)
  else
    match m.parse request with
    | none => some (jointStr "Error".toList "Can't parse Recv Msg".toList "null".toList)
    | some value => do
      let mode ← value.asInt "mode".toList
      if mode = 1 then
        let nt ← value.asInt "nt".toList
        let st ← value.asInt "st".toList
        let pa ← value.asInt "pa".toList
        let offset ← value.asInt "offset".toList
        let numSucc ← value.asInt "num_succ".toList
        let version ← value.asString "version".toList
        if m.checkVersion version = false then
          some (jointStr "Error".toList "Mismatch Version".toList "null".toList)
        else if m.randomFlag then
          (genRandomValStr m.rand numSucc).map (jointStr "OK".toList "null".toList)
        else if m.conf.checkKeys ⟨st, nt, pa, offset, numSucc⟩ ≠ errOk then
          some (jointStr "Error".toList "Invalid Key".toList "null".toList)
        else
          (m.strategyVals ⟨st, nt, pa, offset, numSucc⟩).map fun vals =>
            jointStr "OK".toList "null".toList (convertValToStr vals)
      else some (jointStr "Error".toList "Wrong Mode".toList "null".toList)

/-- The answer of `QueryAction`, cut at the end of its buffer. -/
def queryAction (m : DataModule) (packet : List Char) : Option (List Char) :=
  (m.getVals (getValueBykey packet "KEY".toList ['#'])).map fun resp =>
    (previousStr packet ++ "#Resp=".toList ++ resp ++ "\r\n".toList).take 510

/-- The line that comes back for a request. -/
def replyLine (m : DataModule) (transID : List Char) (roleID : UInt32) (roomID : UInt64) (q : CfrRequest) :
    Option (List Char) :=
  m.queryAction (requestLine transID roleID roomID q)

/-- The reader reads the text of a key, but no text that ends inside it, as no object is closed before its end. -/
structure ReadsKey (parse : List Char → Option JsonValue) (key : CFRKey) (version final : List Char) : Prop where
  reads : ∃ value, parse (keyText key version) = some value ∧ value.asInt "mode".toList = some 1 ∧
    value.asInt "nt".toList = some key.nodeId ∧ value.asInt "st".toList = some key.st ∧
    value.asInt "pa".toList = some key.pa ∧ value.asInt "offset".toList = some key.offset ∧
    value.asInt "num_succ".toList = some key.numSucc ∧ value.asString "version".toList = some final
  refuses : ∀ text, text <+: keyText key version → text ≠ keyText key version → parse text = none

/-- A server of the version of a client that has the values for a key, stored or random ones. -/
structure Serves (m : DataModule) (key : CFRKey) (version : List Char) (vals : List UInt32) : Prop where
  init : m.initFlag = true
  reader : ReadsKey m.parse key version m.finalVersion
  values : if m.randomFlag then genRandomValStr m.rand key.numSucc = some (convertValToStr vals)
    else m.conf.checkKeys key = errOk ∧ m.strategyVals key = some vals

/-- A line comes back that is a line of its own, with everything that was sent and all of the values. -/
def Transported (m : DataModule) (transID : List Char) (roleID : UInt32) (roomID : UInt64) (q : CfrRequest)
    (vals : List UInt32) : Prop :=
  ∃ reply, m.replyLine transID roleID roomID q = some reply ∧
    (∃ body, reply = body ++ "\r\n".toList ∧ ¬"\r\n".toList <:+: body) ∧
    replyFields reply =
      { robotID := (q.robotID % 18446744073709551616).toNat, handID := q.handID.toNat, round := q.round,
        actionSeq := q.actionSeq, roleID := roleID.toNat, roomID := roomID.toNat, response := respText vals,
        actionInfo := q.actionInfo }

end DataModule

section

variable {m : DataModule} {key : CFRKey} {version text resp : List Char} {vals : List UInt32}

theorem plainText_convertValToStr (vals : List UInt32) : PlainText (convertValToStr vals) := by
  apply plainText_intercalate (by decide)
  intro t ht
  obtain ⟨v, -, rfl⟩ := List.mem_map.mp ht
  exact plainText_printNat _

theorem plainText_genRandomValStr {rand : Nat} {numSucc : Int} (h : genRandomValStr rand numSucc = some text) :
    PlainText text := by
  unfold genRandomValStr at h
  split at h
  · cases h
  · cases h
    apply plainText_intercalate (by decide)
    intro t ht
    obtain ⟨i, -, rfl⟩ := List.mem_map.mp ht
    split
    · exact plainText_printInt _
    · exact plainText_printInt _

theorem plainText_okText (h : PlainText text) : PlainText (jointText "OK".toList "null".toList text) := by
  unfold jointText
  refine PlainText.append ?_ (by decide)
  exact PlainText.append (by decide) h

theorem plainText_respText (vals : List UInt32) : PlainText (respText vals) :=
  plainText_okText (plainText_convertValToStr vals)

theorem plainText_jointStr_ok (h : PlainText text) : PlainText (jointStr "OK".toList "null".toList text) :=
  (plainText_okText h).take 1023

instance (text : List Char) : Decidable (NameFree text) := List.decidableBAll _ _

instance (text : List Char) : Decidable (CleanText text) :=
  decidable_of_iff ('#' ∉ text ∧ '\r' ∉ text ∧ NameFree text)
    ⟨fun h => ⟨h.1, h.2.1, h.2.2⟩, fun h => ⟨h.hash, h.cr, h.keys⟩⟩

/-- Whatever the server answers, no search stops inside it. -/
theorem DataModule.cleanText_getVals (h : m.getVals text = some resp) : CleanText resp := by
  unfold getVals at h
  split at h
  · cases h
    decide +kernel
  split at h
  · cases h
    decide +kernel
  rename_i value _
  obtain ⟨mode, -, h⟩ := Option.bind_eq_some_iff.mp h
  split at h
  · obtain ⟨nt, -, h⟩ := Option.bind_eq_some_iff.mp h
    obtain ⟨st, -, h⟩ := Option.bind_eq_some_iff.mp h
    obtain ⟨pa, -, h⟩ := Option.bind_eq_some_iff.mp h
    obtain ⟨offset, -, h⟩ := Option.bind_eq_some_iff.mp h
    obtain ⟨numSucc, -, h⟩ := Option.bind_eq_some_iff.mp h
    obtain ⟨version, -, h⟩ := Option.bind_eq_some_iff.mp h
    split at h
    · cases h
      decide +kernel
    split at h
    · obtain ⟨random, hrandom, rfl⟩ := Option.map_eq_some_iff.mp h
      exact (plainText_jointStr_ok (plainText_genRandomValStr hrandom)).cleanText
    split at h
    · cases h
      decide +kernel
    · obtain ⟨vals, -, rfl⟩ := Option.map_eq_some_iff.mp h
      exact (plainText_jointStr_ok (plainText_convertValToStr vals)).cleanText
  · cases h
    decide +kernel

/-- The whole text of a key is answered with its values. -/
theorem DataModule.Serves.getVals_keyText (h : m.Serves key version vals) :
    m.getVals (keyText key version) = some (jointStr "OK".toList "null".toList (convertValToStr vals)) := by
  obtain ⟨value, hparse, hmode, hnt, hst, hpa, hoffset, hnum, hversion⟩ := h.reader.reads
  have hvalues := h.values
  unfold getVals
  rw [if_neg (by rw [h.init]; decide), hparse]
  simp only [hmode, hnt, hst, hpa, hoffset, hnum, hversion, Option.bind_eq_bind, Option.bind_some, if_true]
  rw [if_neg (by simp [checkVersion])]
  cases hrandom : m.randomFlag with
  | true =>
    rw [hrandom, if_pos rfl] at hvalues
    rw [if_pos rfl, hvalues]
    rfl
  | false =>
    rw [hrandom, if_neg (by decide)] at hvalues
    rw [if_neg (by decide), if_neg (by simp [hvalues.1]), hvalues.2]
    rfl

/-- A text that ends inside the key is refused. -/
theorem DataModule.Serves.getVals_cut (h : m.Serves key version vals) (hpre : text <+: keyText key version)
    (hne : text ≠ keyText key version) :
    m.getVals text = some (jointStr "Error".toList "Can't parse Recv Msg".toList "null".toList) := by
  unfold getVals
  rw [if_neg (by rw [h.init]; decide), h.reader.refuses text hpre hne]

end

section

variable {transID version resp : List Char} {roleID : UInt32} {roomID : UInt64} {key : CFRKey} {q : CfrRequest}

theorem requestFields_nameFree (roleID : UInt32) (roomID : UInt64) (htid : NameFree transID) (hversion : NameFree version)
    (hq : q.Formed key version) : ∀ f ∈ requestFields transID roleID roomID q, NameFree f.2 := by
  obtain ⟨m, hinfo⟩ := hq.actionInfo
  have hkeyFree : NameFree q.key := by
    rw [hq.key]
    exact hversion.convertKeyToRequestStr key
  have hinfoClean : CleanText q.actionInfo := by
    rw [hinfo]
    exact (plainText_toText m).cleanText
  intro f hf
  simp only [requestFields, List.mem_cons, List.not_mem_nil, or_false] at hf
  rcases hf with rfl | rfl | rfl | rfl | rfl | rfl | rfl | rfl | rfl
  · exact htid
  · exact hkeyFree
  · exact hinfoClean.keys
  · exact (plainText_printNat _).cleanText.keys
  · exact (plainText_printNat _).cleanText.keys
  · exact (plainText_printInt _).cleanText.keys
  · exact (plainText_printNat _).cleanText.keys
  · exact (plainText_printNat _).cleanText.keys
  · exact (plainText_printNat _).cleanText.keys

/-- The answer as long as it is. -/
def replyText (transID : List Char) (roleID : UInt32) (roomID : UInt64) (q : CfrRequest) (resp : List Char) : List Char :=
  requestBody transID roleID roomID q ++ "#Resp=".toList ++ resp ++ "\r\n".toList

/-- Every field of the whole answer is found by its name. -/
theorem replyText_value (resp : List Char) (key : List Char) {value : List Char} {i : Nat}
    (hat : (requestFields transID roleID roomID q)[i]? = some (key, value))
    (hfree : ∀ f ∈ requestFields transID roleID roomID q, NameFree f.2) (hvalue : '#' ∉ value) (hkey : key ∈ keyNames)
    (hhead : ¬key <:+: "QUERY_ACTION".toList) (hnames : ∀ name ∈ fieldNames.take i, ¬key <:+: name) :
    getValueBykey (replyText transID roleID roomID q resp) key ['#'] = value := by
  obtain ⟨hhash, heq, -, -, -⟩ := keyNames_spec key hkey
  obtain ⟨before, after, hfields, hlength⟩ : ∃ before after,
      requestFields transID roleID roomID q = before ++ (key, value) :: after ∧ before.length = i := by
    obtain ⟨hi, hget⟩ := List.getElem?_eq_some_iff.mp hat
    refine ⟨_, (requestFields transID roleID roomID q).drop (i + 1), ?_, List.length_take_of_le hi.le⟩
    rw [← hget, List.getElem_cons_drop, List.take_append_drop]
  have hbeforeNames : fieldNames.take i = before.map Prod.fst := by
    have hall : fieldNames = (requestFields transID roleID roomID q).map Prod.fst := rfl
    rw [hall, hfields, ← hlength, List.map_append, ← List.length_map (f := Prod.fst), List.take_left]
  have hnames : ∀ f ∈ before, ¬key <:+: f.1 := by
    intro f hf
    apply hnames
    rw [hbeforeNames]
    exact List.mem_map_of_mem hf
  rw [hfields] at hfree
  have hbefore : ∀ f ∈ before, ¬key <:+: f.1 ∧ ¬key <:+: f.2 :=
    fun f hf => ⟨hnames f hf, hfree f (by simp [hf]) key hkey⟩
  obtain ⟨more, hmore⟩ : ∃ more, fieldsText after ++ ("#Resp=".toList ++ (resp ++ "\r\n".toList)) = '#' :: more := by
    cases after with
    | nil => exact ⟨_, rfl⟩
    | cons f after => exact ⟨_, rfl⟩
  have htext : replyText transID roleID roomID q resp = "QUERY_ACTION".toList ++
      (fieldsText before ++ '#' :: (key ++ '=' :: (value ++ '#' :: more))) := by
    rw [← hmore]
    unfold replyText requestBody
    rw [hfields]
    simp only [fieldsText, List.flatMap_append, List.flatMap_cons, List.append_assoc, List.cons_append]
  rw [htext]
  exact getValueBykey_field hhash heq hhead hbefore hvalue

theorem replyText_resp (hfree : ∀ f ∈ requestFields transID roleID roomID q, NameFree f.2) (hresp : CleanText resp) :
    getValueBykey (replyText transID roleID roomID q resp) "Resp".toList ['#'] = resp := by
  have hbefore : ∀ f ∈ requestFields transID roleID roomID q,
      ¬"Resp".toList <:+: f.1 ∧ ¬"Resp".toList <:+: f.2 := by
    intro f hf
    refine ⟨?_, hfree f hf _ (by decide)⟩
    have hname : f.1 ∈ (requestFields transID roleID roomID q).map Prod.fst := List.mem_map_of_mem hf
    have hall : ∀ name ∈ fieldNames, ¬"Resp".toList <:+: name := by
      decide
    exact hall f.1 hname
  have htext : replyText transID roleID roomID q resp = "QUERY_ACTION".toList ++
      (fieldsText (requestFields transID roleID roomID q) ++
        '#' :: ("Resp".toList ++ '=' :: (resp ++ "\r\n".toList))) := by
    unfold replyText requestBody
    generalize requestFields transID roleID roomID q = fields
    simp
  rw [htext]
  exact getValueBykey_last (by decide) (by decide) (by decide) hbefore hresp.hash hresp.cr

/-- What is read from the whole answer. Only the room number may come back changed. -/
theorem replyFields_replyText (hfree : ∀ f ∈ requestFields transID roleID roomID q, NameFree f.2) (hresp : CleanText resp)
    (hq : q.Formed key version) :
    replyFields (replyText transID roleID roomID q resp) =
      { robotID := (q.robotID % 18446744073709551616).toNat, handID := q.handID.toNat, round := q.round,
        actionSeq := q.actionSeq, roleID := roleID.toNat,
        roomID := (strtoi64 (printNat roomID.toNat) % 18446744073709551616).toNat, response := resp,
        actionInfo := q.actionInfo } := by
  have hinfoHash : '#' ∉ q.actionInfo := by
    obtain ⟨m, hinfo⟩ := hq.actionInfo
    rw [hinfo]
    exact (plainText_toText m).cleanText.hash
  have hnat : ∀ n, '#' ∉ printNat n := fun n => (plainText_printNat n).cleanText.hash
  have hint : '#' ∉ printInt q.robotID := (plainText_printInt _).cleanText.hash
  have hinfo := replyText_value resp "ActionInfo".toList (i := 2) rfl hfree hinfoHash (by decide)
    (by decide) (by decide)
  have hrole := replyText_value resp "RoleID".toList (i := 3) rfl hfree (hnat _) (by decide)
    (by decide) (by decide)
  have hroom := replyText_value resp "RoomID".toList (i := 4) rfl hfree (hnat _) (by decide)
    (by decide) (by decide)
  have hrobot := replyText_value resp "RobotID".toList (i := 5) rfl hfree hint (by decide)
    (by decide) (by decide)
  have hhand := replyText_value resp "HandID".toList (i := 6) rfl hfree (hnat _) (by decide)
    (by decide) (by decide)
  have hround := replyText_value resp "Round".toList (i := 7) rfl hfree (hnat _) (by decide)
    (by decide) (by decide)
  have hseq := replyText_value resp "ActionSeq".toList (i := 8) rfl hfree (hnat _) (by decide)
    (by decide) (by decide)
  have hword : ((roleID.toNat : Int) % 4294967296).toNat = roleID.toNat := by
    have := roleID.toNat_lt
    omega
  unfold replyFields
  rw [hinfo, hrole, hroom, hrobot, hhand, hround, hseq, replyText_resp hfree hresp, strtoi64_printInt hq.robotID,
    strtoi32_printNat q.handID.toNat_lt, strtoi32_printNat hq.round, strtoi32_byte hq.actionSeq,
    strtoi64_printNat (n := roleID.toNat) (by have := roleID.toNat_lt; omega), hword]

end

section

variable {text body rest : List Char}

/-- The echo ends before the separator that a request ends with. -/
theorem previousStr_append (h : '\r' ∉ body) : previousStr (body ++ "#\r\n".toList) = body := by
  have hidx : (body ++ "#\r\n".toList).findIdx? (· = '\r') = some (body.length + 1) := by
    have hnone : body.findIdx? (fun c => decide (c = '\r')) = none := by
      rw [List.findIdx?_eq_none_iff]
      intro c hc
      rw [decide_eq_false_iff_not]
      rintro rfl
      exact h hc
    have htail : "#\r\n".toList.findIdx? (fun c => decide (c = '\r')) = some 1 := by
      decide
    rw [List.findIdx?_append, hnone, htail]
    simp only [Option.map_some, Option.none_or, Nat.add_comm]
  unfold previousStr
  rw [hidx]
  exact List.take_left

/-- The echo of a text that starts without a carriage return loses at most a character of that start and
has no carriage return itself. -/
theorem previousStr_long (hpre : body <+: text) (hne : body ≠ []) (hcr : '\r' ∉ body) :
    body.length ≤ (previousStr text).length + 1 ∧ '\r' ∉ previousStr text := by
  have hlen := hpre.length_le
  unfold previousStr
  cases hidx : text.findIdx? (· = '\r') with
  | none =>
    rw [List.findIdx?_eq_none_iff] at hidx
    refine ⟨by dsimp only; omega, fun hmem => ?_⟩
    have := hidx _ hmem
    simp at this
  | some i =>
    obtain ⟨hi, hat, hbefore⟩ := List.findIdx?_eq_some_iff_getElem.mp hidx
    have hfar : body.length ≤ i := by
      by_contra hlt
      apply hcr
      have hget : body[i] = text[i] := hpre.getElem (by omega)
      rw [of_decide_eq_true hat] at hget
      rw [← hget]
      exact List.getElem_mem (by omega)
    cases i with
    | zero => exact absurd (List.eq_nil_of_length_eq_zero (by omega)) hne
    | succ i =>
      refine ⟨by simp only [List.length_take]; omega, fun hmem => ?_⟩
      obtain ⟨j, hj, hget⟩ := List.mem_iff_getElem.mp hmem
      rw [List.length_take] at hj
      rw [List.getElem_take] at hget
      have := hbefore j (by omega)
      simp [hget] at this

/-- A line that is cut has no end of line. -/
theorem cut_line (hlong : 509 ≤ text.length) (hcr : '\r' ∉ text) :
    ¬∃ body, (text ++ "\r\n".toList).take 510 = body ++ "\r\n".toList := by
  rintro ⟨body, hbody⟩
  have hlen := congrArg List.length hbody
  have htail : "\r\n".toList.length = 2 := by
    decide
  rw [List.length_take, List.length_append, List.length_append, htail] at hlen
  have hbodyLen : body.length = 508 := by omega
  have hchar := congrArg (fun l => l[508]?) hbody
  simp only [List.getElem?_take, List.getElem?_append, hbodyLen] at hchar
  rw [if_pos (by omega), if_pos (by omega), if_neg (by omega)] at hchar
  have hat : text[508]? = some '\r' := hchar
  exact hcr (List.mem_of_getElem? hat)

/-- The echo of a text with an early carriage return ends before it. -/
theorem previousStr_prefix {c : Char} (hc : c ≠ '\r') (h : '\r' ∈ body) :
    previousStr (c :: body ++ rest) <+: c :: body := by
  obtain ⟨i, hidx⟩ : ∃ i, body.findIdx? (fun c => decide (c = '\r')) = some i := by
    cases hfind : body.findIdx? (fun c => decide (c = '\r')) with
    | some i => exact ⟨i, rfl⟩
    | none =>
      rw [List.findIdx?_eq_none_iff] at hfind
      have := hfind _ h
      simp at this
  obtain ⟨hi, -, -⟩ := List.findIdx?_eq_some_iff_getElem.mp hidx
  have hline : (c :: body ++ rest).findIdx? (· = '\r') = some (i + 1) := by
    rw [List.cons_append, List.findIdx?_cons, if_neg (by simpa using hc), List.findIdx?_append, hidx]
    rfl
  unfold previousStr
  rw [hline]
  dsimp only
  rw [List.take_append_of_le_length (by rw [List.length_cons]; omega)]
  exact List.take_prefix _ _

end

section

variable {m : DataModule} {transID version resp : List Char} {roleID : UInt32} {roomID : UInt64} {key : CFRKey}
  {q : CfrRequest} {vals : List UInt32}

/-- The request up to its key. -/
def requestHead (transID : List Char) (q : CfrRequest) : List Char :=
  "QUERY_ACTION#TransID=".toList ++ transID ++ "#KEY=".toList ++ q.key

/-- The fields behind the key. -/
def requestTail (roleID : UInt32) (roomID : UInt64) (q : CfrRequest) : List Char :=
  fieldsText ((requestFields [] roleID roomID q).drop 2)

theorem requestBody_split (transID : List Char) (roleID : UInt32) (roomID : UInt64) (q : CfrRequest) :
    requestBody transID roleID roomID q = requestHead transID q ++ requestTail roleID roomID q := by
  unfold requestBody requestHead requestTail fieldsText requestFields
  generalize printNat roleID.toNat = role
  generalize printNat roomID.toNat = room
  generalize printInt q.robotID = robot
  generalize printNat q.handID.toNat = hand
  generalize printNat q.round = round
  generalize printNat q.actionSeq = seq
  simp only [List.drop_succ_cons, List.drop_zero, List.flatMap_cons, List.flatMap_nil, List.append_assoc, List.append_nil,
    String.reduceToList]
  simp only [List.cons_append, List.nil_append]

theorem requestTail_cr (hq : q.Formed key version) : '\r' ∉ requestTail roleID roomID q := by
  have hnat : ∀ n, '\r' ∉ printNat n := fun n => (plainText_printNat n).cleanText.cr
  have hint : '\r' ∉ printInt q.robotID := (plainText_printInt _).cleanText.cr
  have hinfo : '\r' ∉ q.actionInfo := by
    obtain ⟨s, hinfo⟩ := hq.actionInfo
    rw [hinfo]
    exact (plainText_toText s).cleanText.cr
  simp [requestTail, fieldsText, requestFields, hnat, hint, hinfo]

theorem requestText_length (transID : List Char) (roleID : UInt32) (roomID : UInt64) (q : CfrRequest) :
    (requestText transID roleID roomID q).length = (requestBody transID roleID roomID q).length + 3 := by
  rw [requestText_eq, List.length_append]
  rfl

/-- The server finds the key up to its first separator. -/
theorem getValueBykey_key (hkey : ¬"KEY".toList <:+: transID) :
    getValueBykey (requestBody transID roleID roomID q ++ "#\r\n".toList) "KEY".toList ['#'] =
      q.key.takeWhile (· ≠ '#') := by
  obtain ⟨tail, htail⟩ : ∃ tail, requestTail roleID roomID q = '#' :: tail := by
    unfold requestTail requestFields
    rw [List.drop_succ_cons, List.drop_succ_cons, List.drop_zero, fieldsText, List.flatMap_cons, List.cons_append]
    exact ⟨_, rfl⟩
  obtain ⟨more, hmore⟩ : ∃ more, q.key ++ (requestTail roleID roomID q ++ "#\r\n".toList) =
      q.key.takeWhile (· ≠ '#') ++ '#' :: more := by
    have hsplit := List.takeWhile_append_dropWhile (p := (· ≠ '#')) (l := q.key)
    cases hrest : q.key.dropWhile (· ≠ '#') with
    | nil =>
      rw [hrest, List.append_nil] at hsplit
      exact ⟨tail ++ "#\r\n".toList, by rw [hsplit, htail, List.cons_append]⟩
    | cons c rest =>
      have hc := List.head_dropWhile_not (fun c => decide (c ≠ '#')) (l := q.key) (by rw [hrest]; simp)
      simp only [hrest, List.head_cons, decide_eq_false_iff_not, not_not] at hc
      subst hc
      refine ⟨rest ++ (requestTail roleID roomID q ++ "#\r\n".toList), ?_⟩
      nth_rewrite 1 [← hsplit]
      rw [hrest, List.append_assoc, List.cons_append]
  have htext : requestBody transID roleID roomID q ++ "#\r\n".toList = "QUERY_ACTION".toList ++
      (fieldsText [("TransID".toList, transID)] ++
        '#' :: ("KEY".toList ++ '=' :: (q.key.takeWhile (· ≠ '#') ++ '#' :: more))) := by
    rw [requestBody_split]
    unfold requestHead
    simp only [List.append_assoc]
    rw [hmore]
    generalize q.key.takeWhile (· ≠ '#') = v
    simp [fieldsText]
  have hbefore : ∀ f ∈ [("TransID".toList, transID)], ¬"KEY".toList <:+: f.1 ∧ ¬"KEY".toList <:+: f.2 := by
    intro f hf
    rw [List.mem_singleton.mp hf]
    have hname : ¬"KEY".toList <:+: "TransID".toList := by decide
    exact ⟨hname, hkey⟩
  have hvalue : '#' ∉ q.key.takeWhile (· ≠ '#') := by
    intro hmem
    have := List.mem_takeWhile_imp hmem
    simp at this
  rw [htext]
  exact getValueBykey_field (by decide) (by decide) (by decide) hbefore hvalue

/-- No situation is found in a request up to its key. -/
theorem actionInfo_notFound (htid : NameFree transID) (hkey : NameFree q.key) :
    ¬"ActionInfo".toList <:+: requestHead transID q := by
  have hmem : "ActionInfo".toList ∈ keyNames := by decide
  obtain ⟨hhash, heq, -, -, -⟩ := keyNames_spec _ hmem
  have hsplit : requestHead transID q = "QUERY_ACTION".toList ++ '#' :: ("TransID".toList ++ '=' ::
      (transID ++ '#' :: ("KEY".toList ++ '=' :: q.key))) := by
    unfold requestHead
    simp
  rw [hsplit]
  intro hin
  rcases infix_append_cons hhash hin with hin | hin
  · exact absurd hin (by decide)
  rcases infix_append_cons heq hin with hin | hin
  · exact absurd hin (by decide)
  rcases infix_append_cons hhash hin with hin | hin
  · exact htid _ hmem hin
  rcases infix_append_cons heq hin with hin | hin
  · exact absurd hin (by decide)
  · exact hkey _ hmem hin

theorem actionInfo_ne_nil (hq : q.Formed key version) : q.actionInfo ≠ [] := by
  obtain ⟨s, hinfo⟩ := hq.actionInfo
  rw [hinfo]
  unfold ActionInfo.toText
  intro hnil
  have hhead := congrArg List.head? hnil
  simp at hhead

theorem requestLine_eq (transID : List Char) (roleID : UInt32) (roomID : UInt64) (q : CfrRequest) :
    ∃ rest, requestLine transID roleID roomID q = (requestHead transID q).take 1022 ++ rest := by
  refine ⟨((requestTail roleID roomID q) ++ "#\r\n".toList).take (1022 - (requestHead transID q).length), ?_⟩
  unfold requestLine
  rw [requestText_eq, requestBody_split, List.append_assoc, List.take_append]

/-- A carriage return before the situation keeps it out of the echo. -/
theorem not_transported_of_cr (htid : NameFree transID) (hversion : NameFree version) (hq : q.Formed key version)
    (hcr : '\r' ∈ (requestHead transID q).take 1022) : ¬m.Transported transID roleID roomID q vals := by
  rintro ⟨reply, hreply, -, hfields⟩
  obtain ⟨resp, hresp, rfl⟩ := Option.map_eq_some_iff.mp hreply
  obtain ⟨rest, hline⟩ := requestLine_eq transID roleID roomID q
  obtain ⟨tail, htail⟩ : ∃ tail, (requestHead transID q).take 1022 = 'Q' :: tail := by
    unfold requestHead
    simp only [String.reduceToList, List.cons_append, List.take_succ_cons]
    exact ⟨_, rfl⟩
  have hkeyFree : NameFree q.key := by
    rw [hq.key]
    exact hversion.convertKeyToRequestStr key
  have hmem : "ActionInfo".toList ∈ keyNames := by decide
  have hecho : ¬"ActionInfo".toList <:+: previousStr (requestLine transID roleID roomID q) := by
    intro hin
    have hpre : previousStr (requestLine transID roleID roomID q) <+: (requestHead transID q).take 1022 := by
      rw [htail] at hcr hline ⊢
      rw [hline]
      exact previousStr_prefix (by decide) (by simpa using hcr)
    exact actionInfo_notFound htid hkeyFree (hin.trans (hpre.trans (List.take_prefix _ _)).isInfix)
  have hnone : strstr "ActionInfo".toList ((previousStr (requestLine transID roleID roomID q) ++ "#Resp=".toList ++ resp ++
      "\r\n".toList).take 510) = none := by
    apply strstr_eq_none
    intro hin
    have hwhole := hin.trans (List.take_prefix _ _).isInfix
    have hsplit : previousStr (requestLine transID roleID roomID q) ++ "#Resp=".toList ++ resp ++ "\r\n".toList =
        previousStr (requestLine transID roleID roomID q) ++ '#' :: ("Resp".toList ++ '=' :: (resp ++ '\r' :: ['\n'])) := by
      generalize previousStr (requestLine transID roleID roomID q) = echo
      simp
    rw [hsplit] at hwhole
    rcases infix_append_cons (by decide) hwhole with hin | hin
    · exact hecho hin
    rcases infix_append_cons (by decide) hin with hin | hin
    · exact absurd hin (by decide)
    rcases infix_append_cons (by decide) hin with hin | hin
    · exact (m.cleanText_getVals hresp).keys _ hmem hin
    · exact absurd hin (by decide)
  have hinfo := congrArg ReplyFields.actionInfo hfields
  simp only [replyFields, getValueBykey, hnone] at hinfo
  exact actionInfo_ne_nil hq hinfo.symm

/-- A request that is cut leaves no room for an end of line. -/
theorem not_transported_of_cut (hq : q.Formed key version) (hcr : '\r' ∉ (requestHead transID q).take 1022)
    (hlong : 1022 < (requestText transID roleID roomID q).length) : ¬m.Transported transID roleID roomID q vals := by
  rintro ⟨reply, hreply, ⟨body, hbody, -⟩, -⟩
  obtain ⟨resp, hresp, rfl⟩ := Option.map_eq_some_iff.mp hreply
  have hlength := requestText_length transID roleID roomID q
  have hstart : '\r' ∉ (requestBody transID roleID roomID q).take 1019 := by
    intro hmem
    rw [requestBody_split, List.take_append] at hmem
    rcases List.mem_append.mp hmem with hmem | hmem
    · exact hcr ((List.take_prefix_take_left (by decide)).subset hmem)
    · exact requestTail_cr hq (List.mem_of_mem_take hmem)
  have hsame : ((requestText transID roleID roomID q).take 1022).take 1019 =
      (requestBody transID roleID roomID q).take 1019 := by
    rw [List.take_take, requestText_eq]
    exact List.take_append_of_le_length (by omega)
  have hpre : (requestBody transID roleID roomID q).take 1019 <+: requestLine transID roleID roomID q := by
    rw [← hsame]
    exact List.take_prefix _ _
  have hbodyLen : ((requestBody transID roleID roomID q).take 1019).length = 1019 := List.length_take_of_le (by omega)
  have hne : (requestBody transID roleID roomID q).take 1019 ≠ [] := by
    intro hnil
    rw [hnil] at hbodyLen
    cases hbodyLen
  obtain ⟨hlen, hno⟩ := previousStr_long hpre hne hstart
  refine cut_line ?_ ?_ ⟨body, hbody⟩
  · rw [List.length_append, List.length_append]
    omega
  · simp only [List.mem_append, not_or]
    exact ⟨⟨hno, by decide⟩, (m.cleanText_getVals hresp).cr⟩

theorem requestBody_cr (hq : q.Formed key version) (hcr : '\r' ∉ requestHead transID q) :
    '\r' ∉ requestBody transID roleID roomID q := by
  rw [requestBody_split, List.mem_append, not_or]
  exact ⟨hcr, requestTail_cr hq⟩

/-- The answer to a request that comes whole. -/
theorem replyLine_whole (hkey : ¬"KEY".toList <:+: transID) (hq : q.Formed key version) (hcr : '\r' ∉ requestHead transID q)
    (hfits : (requestText transID roleID roomID q).length ≤ 1022) :
    m.replyLine transID roleID roomID q =
      (m.getVals (q.key.takeWhile (· ≠ '#'))).map fun resp => (replyText transID roleID roomID q resp).take 510 := by
  have hline : requestLine transID roleID roomID q = requestBody transID roleID roomID q ++ "#\r\n".toList := by
    unfold requestLine
    rw [List.take_of_length_le hfits, requestText_eq]
  unfold DataModule.replyLine DataModule.queryAction replyText
  rw [hline, getValueBykey_key hkey, previousStr_append (requestBody_cr hq hcr)]

theorem replyText_length (transID : List Char) (roleID : UInt32) (roomID : UInt64) (q : CfrRequest) (resp : List Char) :
    (replyText transID roleID roomID q resp).length = (requestText transID roleID roomID q).length + resp.length + 5 := by
  have hlength := requestText_length transID roleID roomID q
  have htail : "#Resp=".toList.length = 6 ∧ "\r\n".toList.length = 2 := by
    decide
  unfold replyText
  rw [List.length_append, List.length_append, List.length_append, htail.1, htail.2]
  omega

/-- An answer that ends in an end of line is not cut. -/
theorem replyText_ended {body : List Char} (hq : q.Formed key version) (hcr : '\r' ∉ requestHead transID q)
    (hresp : CleanText resp) (hended : (replyText transID roleID roomID q resp).take 510 = body ++ "\r\n".toList) :
    (replyText transID roleID roomID q resp).take 510 = replyText transID roleID roomID q resp ∧
      (requestText transID roleID roomID q).length + resp.length ≤ 505 := by
  have hlength := replyText_length transID roleID roomID q resp
  have htail : "\r\n".toList.length = 2 := by
    decide
  have hshort : (requestText transID roleID roomID q).length + resp.length ≤ 505 := by
    by_contra hlong
    unfold replyText at hlength hended
    rw [List.length_append, htail] at hlength
    refine cut_line ?_ ?_ ⟨body, hended⟩
    · omega
    · simp only [List.mem_append, not_or]
      exact ⟨⟨requestBody_cr hq hcr, by decide⟩, hresp.cr⟩
  exact ⟨List.take_of_length_le (by omega), hshort⟩

/-- A request that comes whole holds the whole text of its key. -/
theorem key_whole (hq : q.Formed key version) (hfits : (requestText transID roleID roomID q).length ≤ 1022) :
    q.key = keyText key version ∧ (requestHead transID q).take 1022 = requestHead transID q := by
  have hlength := requestText_length transID roleID roomID q
  rw [requestBody_split, List.length_append] at hlength
  have hkeyLength : q.key.length ≤ (requestHead transID q).length := by
    unfold requestHead
    rw [List.length_append]
    omega
  refine ⟨?_, List.take_of_length_le (by omega)⟩
  have hkey := hq.key
  unfold convertKeyToRequestStr at hkey
  have hcut := congrArg List.length hkey
  rw [List.length_take] at hcut
  rw [hkey, List.take_of_length_le (by omega)]

theorem mem_requestHead {c : Char} (h : c ∈ transID ∨ c ∈ q.key) : c ∈ requestHead transID q := by
  unfold requestHead
  simp only [List.mem_append]
  rcases h with h | h
  · exact .inl (.inl (.inr h))
  · exact .inr h

theorem errorText_ne_respText (vals : List UInt32) :
    jointStr "Error".toList "Can't parse Recv Msg".toList "null".toList ≠ respText vals := by
  intro heq
  have hchar := congrArg (fun l => l[8]?) heq
  have herror : (jointStr "Error".toList "Can't parse Recv Msg".toList "null".toList)[8]? = some 'E' := by
    decide
  have hok : (respText vals)[8]? = some 'O' := by
    unfold respText jointText
    rw [List.getElem?_append_left (by simp), List.getElem?_append_left (by simp)]
    decide
  rw [herror, hok] at hchar
  cases hchar

theorem takeWhile_keyText (key : CFRKey) (version : List Char) :
    (keyText key version).takeWhile (· ≠ '#') = keyText key version ↔ '#' ∉ version := by
  have hmem : '#' ∈ keyText key version ↔ '#' ∈ version := mem_keyText_iff (by decide)
  rw [List.takeWhile_eq_self_iff, ← hmem]
  constructor
  · intro hall hhash
    simpa using hall '#' hhash
  · intro hno c hc
    have hne : c ≠ '#' := by
      rintro rfl
      exact hno hc
    simpa using hne

/-- A line that comes back with everything was a line of its own and has fitted. -/
theorem fits_of_transported (htid : NameFree transID) (hkey : ¬"KEY".toList <:+: transID) (hversion : NameFree version)
    (hq : q.Formed key version) (hserves : m.Serves key version vals) (h : m.Transported transID roleID roomID q vals) :
    '\r' ∉ transID ∧ '\r' ∉ version ∧ '#' ∉ version ∧
      (requestText transID roleID roomID q).length + (respText vals).length ≤ 505 ∧
      roomID.toNat < 9223372036854775808 := by
  have hfree := requestFields_nameFree roleID roomID htid hversion hq
  have hcr : '\r' ∉ (requestHead transID q).take 1022 := fun hcr => not_transported_of_cr htid hversion hq hcr h
  have hfits : (requestText transID roleID roomID q).length ≤ 1022 :=
    not_lt.mp fun hlong => not_transported_of_cut hq hcr hlong h
  obtain ⟨hkeyText, hhead⟩ := key_whole hq hfits
  rw [hhead] at hcr
  have htidCr : '\r' ∉ transID := fun hmem => hcr (mem_requestHead (.inl hmem))
  have hversionCr : '\r' ∉ version := by
    intro hmem
    apply hcr
    apply mem_requestHead
    rw [hkeyText]
    exact .inr ((mem_keyText_iff (by decide)).mpr hmem)
  obtain ⟨reply, hreply, ⟨body, hbody, -⟩, hfields⟩ := h
  rw [replyLine_whole hkey hq hcr hfits, hkeyText] at hreply
  obtain ⟨resp, hresp, rfl⟩ := Option.map_eq_some_iff.mp hreply
  have hclean := m.cleanText_getVals hresp
  obtain ⟨hsame, hshort⟩ := replyText_ended hq hcr hclean hbody
  rw [hsame, replyFields_replyText hfree hclean hq] at hfields
  have hvals : resp = respText vals := congrArg ReplyFields.response hfields
  refine ⟨htidCr, hversionCr, ?_, by rwa [hvals] at hshort, ?_⟩
  · intro hhash
    have hne : (keyText key version).takeWhile (· ≠ '#') ≠ keyText key version := fun heq =>
      (takeWhile_keyText key version).mp heq hhash
    rw [hserves.getVals_cut (List.takeWhile_prefix _) hne] at hresp
    exact errorText_ne_respText vals ((Option.some.inj hresp).trans hvals)
  · by_contra hlarge
    rw [strtoi64_large (by omega)] at hfields
    have hroom := congrArg ReplyFields.roomID hfields
    dsimp only at hroom
    omega

theorem transported_of_fits (htid : NameFree transID) (hkey : ¬"KEY".toList <:+: transID) (hversion : NameFree version)
    (hq : q.Formed key version) (hserves : m.Serves key version vals) (htidCr : '\r' ∉ transID)
    (hversionCr : '\r' ∉ version) (hhash : '#' ∉ version)
    (hfits : (requestText transID roleID roomID q).length + (respText vals).length ≤ 505)
    (hroom : roomID.toNat < 9223372036854775808) : m.Transported transID roleID roomID q vals := by
  have hwhole : (requestText transID roleID roomID q).length ≤ 1022 := by omega
  obtain ⟨hkeyText, -⟩ := key_whole hq hwhole
  have hcr : '\r' ∉ requestHead transID q := by
    have hkeyCr : '\r' ∉ keyText key version := (mem_keyText_iff (by decide)).not.mpr hversionCr
    unfold requestHead
    rw [hkeyText]
    simp [htidCr, hkeyCr]
  have hresp : jointStr "OK".toList "null".toList (convertValToStr vals) = respText vals :=
    List.take_of_length_le (by unfold respText at hfits; omega)
  have hclean : CleanText (respText vals) := (plainText_respText vals).cleanText
  have hlength := replyText_length transID roleID roomID q (respText vals)
  refine ⟨replyText transID roleID roomID q (respText vals), ?_,
    ⟨requestBody transID roleID roomID q ++ "#Resp=".toList ++ respText vals, rfl, ?_⟩, ?_⟩
  · rw [replyLine_whole hkey hq hcr hwhole, hkeyText, (takeWhile_keyText key version).mpr hhash,
      hserves.getVals_keyText, hresp, Option.map_some, List.take_of_length_le (by omega)]
  · apply not_infix_of_not_mem (c := '\r') (by decide)
    simp only [List.mem_append, not_or]
    exact ⟨⟨requestBody_cr hq hcr, by decide⟩, hclean.cr⟩
  · have hvalue : ((roomID.toNat : Int) % 18446744073709551616).toNat = roomID.toNat := by
      omega
    rw [replyFields_replyText (requestFields_nameFree roleID roomID htid hversion hq) hclean hq, strtoi64_printNat hroom,
      hvalue]

/-- Behind a transaction number and a version that hold none of the names, a request to a server that has the values
comes back with them just when neither holds a carriage return nor the version a separator, the line fits the buffer of
the server and the room number fits a signed integer. -/
theorem transported_iff (htid : NameFree transID) (hkey : ¬"KEY".toList <:+: transID) (hversion : NameFree version)
    (hq : q.Formed key version) (hserves : m.Serves key version vals) (roleID : UInt32) (roomID : UInt64) :
    m.Transported transID roleID roomID q vals ↔
      '\r' ∉ transID ∧ '\r' ∉ version ∧ '#' ∉ version ∧
        (requestText transID roleID roomID q).length + (respText vals).length ≤ 505 ∧
        roomID.toNat < 9223372036854775808 := by
  constructor
  · exact fits_of_transported htid hkey hversion hq hserves
  · rintro ⟨htidCr, hversionCr, hhash, hfits, hroom⟩
    exact transported_of_fits htid hkey hversion hq hserves htidCr hversionCr hhash hfits hroom

end

/-- Reads an object of six numbers and a string by its quotation marks. -/
def parseKeyObject (text : List Char) : Option JsonValue :=
  match splitString text ['"'] with
  | [_, name₁, n₁, name₂, n₂, name₃, n₃, name₄, n₄, name₅, n₅, name₆, n₆, name₇, _, string, last] =>
    if last = "\x7d".toList then
      some {
        asInt := fun name =>
          ([(name₁, n₁), (name₂, n₂), (name₃, n₃), (name₄, n₄), (name₅, n₅), (name₆, n₆)].find? fun e => e.1 = name).map
            fun e => strtoll (e.2.drop 1)
        asString := fun name => if name = name₇ then some string else none }
    else none
  | _ => none

/-- A node on the flop with twenty successors, for its last hand. -/
def flopKey : CFRKey := ⟨1, 57, 0, 6040, 20⟩

/-- A request of a robot on the flop of a hand that both players called into. -/
def flopRequest : CfrRequest where
  key := convertKeyToRequestStr flopKey "\"v1(0,0,0,0)\"".toList
  robotID := 7340032000012345
  handID := 12
  round := 1
  actionSeq := 2
  actionInfo := (getActionInfo ⟨(playFrom duelGame [⟨.call, 0⟩, ⟨.call, 0⟩]).2, 1⟩).toText

theorem flopRequest_formed : flopRequest.Formed flopKey "\"v1(0,0,0,0)\"".toList := by
  refine ⟨rfl, ⟨_, rfl⟩, ?_, ?_, ?_⟩
  · simp only [flopRequest]
    omega
  · simp only [flopRequest]
    omega
  · simp only [flopRequest]
    omega

/-- A server that holds some values for the last hand of the node. -/
def flopServer (vals : List UInt32) : DataModule where
  initFlag := true
  finalVersion := "v1(0,0,0,0)".toList
  randomFlag := false
  conf := {
    numPlayers := 2
    maxStreet := 3
    players := fun _ => true
    streets := fun _ => true
    numHoldings := fun _ => 303
    root := .mk 57 1 0 (List.replicate 20 (.mk 0 1 0 []))
    onlyP := -1
    quantize := false
    dir := fun _ _ _ => none
    memory := fun _ _ _ => 0 }
  cfrValues := {
    streetValues := fun st =>
      if st = 1 then
        some ⟨303, .int, .int, fun _ _ =>
          some (List.replicate 6040 (.integer 0) ++ vals.map fun v => .integer v.toNat)⟩
      else none
    readers := fun _ _ => none
    calls := fun _ _ => [] }
  parse := parseKeyObject
  ofDouble := fun _ => none
  rand := 0

theorem parseKeyObject_flopKey :
    DataModule.ReadsKey parseKeyObject flopKey "\"v1(0,0,0,0)\"".toList "v1(0,0,0,0)".toList := by
  constructor
  · have hsplit : splitString (keyText flopKey "\"v1(0,0,0,0)\"".toList) ['"'] =
        ["\x7b".toList, "mode".toList, ":1, ".toList, "nt".toList, ":57, ".toList, "st".toList, ":1, ".toList,
          "pa".toList, ":0, ".toList, "offset".toList, ":6040, ".toList, "num_succ".toList, ":20,".toList,
          "version".toList, ":".toList, "v1(0,0,0,0)".toList, "\x7d".toList] := by
      decide +kernel
    refine ⟨_, by rw [parseKeyObject, hsplit]; rfl, ?_⟩
    decide +kernel
  · have hall : ∀ i < (keyText flopKey "\"v1(0,0,0,0)\"".toList).length,
        (parseKeyObject ((keyText flopKey "\"v1(0,0,0,0)\"".toList).take i)).isNone = true := by
      decide +kernel
    intro text hpre hne
    have hlt : text.length < (keyText flopKey "\"v1(0,0,0,0)\"".toList).length := by
      by_contra hge
      exact hne (hpre.eq_of_length_le (not_lt.mp hge))
    have hnone := hall text.length hlt
    rw [← List.prefix_iff_eq_take.mp hpre, Option.isNone_iff_eq_none] at hnone
    exact hnone

theorem flopServer_serves {vals : List UInt32} (hlength : vals.length = 20) :
    (flopServer vals).Serves flopKey "\"v1(0,0,0,0)\"".toList vals := by
  refine ⟨rfl, parseKeyObject_flopKey, ?_⟩
  have hchecked : (flopServer []).conf.checkKeys flopKey = errOk := by
    decide +kernel
  have hconvert : ∀ l : List UInt32,
      (l.map fun v => CfrValue.integer v.toNat).mapM (CfrValue.toUnsigned fun _ => none) = some l := by
    intro l
    induction l with
    | nil => rfl
    | cons v l ih =>
      have hv : ((v.toNat : Int) % 4294967296).toNat = v.toNat := by
        have := v.toNat_lt
        omega
      rw [List.map_cons, List.mapM_cons, ih, CfrValue.toUnsigned, hv, UInt32.ofNat_toNat]
      rfl
  have hstored : (flopServer vals).cfrValues.getOneStrategyVals flopKey =
      some (vals.map fun v => .integer v.toNat) := by
    have hpos : 0 < flopKey.numSucc := by decide
    rw [CFRValues.getOneStrategyVals_eq hpos rfl rfl (by decide)]
    · have hdrop : flopKey.offset.toNat = (List.replicate 6040 (CfrValue.integer 0)).length := by
        rw [List.length_replicate]
        rfl
      rw [hdrop, List.drop_left, List.take_of_length_le]
      rw [List.length_map, hlength]
      decide
    · rw [List.length_append, List.length_replicate, List.length_map, hlength]
      decide
  refine ⟨hchecked, ?_⟩
  unfold DataModule.strategyVals
  rw [hstored]
  exact hconvert vals

theorem transported_flopRequest :
    (flopServer (100 :: List.replicate 19 250)).Transported "0a0f0100000007-0001".toList 7 9 flopRequest
      (100 :: List.replicate 19 250) :=
  (transported_iff (by decide +kernel) (by decide +kernel) (by decide +kernel) flopRequest_formed (flopServer_serves rfl)
    7 9).mpr (by decide +kernel)

/-- Twenty regrets of ten digits are more than the answer has room for, and its end of line is lost. -/
theorem flopRequest_cut :
    flopRequest.Formed flopKey "\"v1(0,0,0,0)\"".toList ∧
      (flopServer (List.replicate 20 2000000000)).Serves flopKey "\"v1(0,0,0,0)\"".toList (List.replicate 20 2000000000) ∧
      ¬(flopServer (List.replicate 20 2000000000)).Transported "0a0f0100000007-0001".toList 7 9 flopRequest
        (List.replicate 20 2000000000) := by
  refine ⟨flopRequest_formed, flopServer_serves List.length_replicate, ?_⟩
  rintro ⟨reply, hreply, ⟨body, rfl, -⟩, -⟩
  have hlast := congrArg (fun reply => reply.bind List.getLast?) hreply
  have hend : (body ++ "\r\n".toList).getLast? = some '\n' := by
    simp
  simp only [Option.bind_some, hend] at hlast
  revert hlast
  decide +kernel

end MasterAI
