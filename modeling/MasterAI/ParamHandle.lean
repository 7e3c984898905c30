import MasterAI.CfrReply
import MasterAI.DTRobot
import MasterAI.RadixText
import MasterAI.SessionRuns

namespace MasterAI

def numStreet : Nat := 4

/-- A C string in memory: its text, and the text that follows its terminator. -/
structure CText where
  text : List Char
  beyond : List Char

/-- `StringUtils::GetValueBykey`. A key at the very end makes it read behind the terminator. -/
def CText.getValueBykey (buf : CText) (key : List Char) : List Char :=
  match strstr key buf.text with
  | none => []
  | some found =>
    let start := if found.length = key.length then buf.beyond else found.drop (key.length + 1)
    match strstr [' '] start with
    | some rest => start.take (start.length - rest.length)
    | none =>
      match strstr "\r\n".toList start with
      | some rest => start.take (start.length - rest.length)
      | none => start

namespace ParamHandle

def labelFilterFlag : List Char := "filter_flag".toList
def labelFrmTh : List Char := "frm_th".toList
def labelPotTh : List Char := "pot_th".toList
def labelRuleType : List Char := "rule_type".toList
def labelHandleNfrm : List Char := "handle_nfrm".toList
def labelStreetSepator : List Char := [',']

/-- The values of a list of `count` pieces, each read by a conversion, or the error. -/
def parseValues {α : Type} (scan : List Char → Option α) (str : List Char) (count : Nat) : Except Int (List α) :=
  let splitStr := splitString str labelStreetSepator
  -- the number of pieces as an `int`
  if splitStr.length % 4294967296 ≠ count then .error (-2)
  else
    match (splitStr.take count).mapM scan with
    | none => .error (-1)
    | some vals => .ok vals

def parseInts (intStr : List Char) (count : Nat) : Except Int (List Int) := parseValues scanAnyInt32 intStr count

/-- A truth value is written 0 or 1. -/
def scanBool (text : List Char) : Option Bool :=
  match scanAnyInt32 text with
  | some 1 => some true
  | some 0 => some false
  | _ => none

def parseBools (boolStr : List Char) (count : Nat) : Except Int (List Bool) := parseValues scanBool boolStr count

/-- The values that the loop over the streets copies. -/
def copied {α : Type} (vals : List α) (old : Fin 4 → α) : Fin 4 → α :=
  fun i => vals.getD i (old i)

section

variable (scanDouble : List Char → Option Double)

def parseDoubles (doubleStr : List Char) (count : Nat) : Except Int (List Double) := parseValues scanDouble doubleStr count

/-- `SetActionParam`, with the conversion `%lf`: the parameters it leaves, and its result. -/
def setActionParam (paramStr : CText) (param : ActionParam) : ActionParam × Int :=
  match parseDoubles scanDouble (paramStr.getValueBykey labelFrmTh) numStreet with
  | .error flag => (param, -1000 + flag)
  | .ok vals =>
    let param := { param with frmThs := copied vals param.frmThs }
    match parseBools (paramStr.getValueBykey labelFilterFlag) numStreet with
    | .error flag => (param, -2000 + flag)
    | .ok vals =>
      let param := { param with filterFlags := copied vals param.filterFlags }
      match parseDoubles scanDouble (paramStr.getValueBykey labelPotTh) numStreet with
      | .error flag => (param, -3000 + flag)
      | .ok vals =>
        let param := { param with potThs := copied vals param.potThs }
        match parseInts (paramStr.getValueBykey labelRuleType) numStreet with
        | .error flag => (param, -4000 + flag)
        | .ok vals =>
          let param := { param with ruleTypes := copied vals param.ruleTypes }
          match parseBools (paramStr.getValueBykey labelHandleNfrm) numStreet with
          | .error flag => (param, -5000 + flag)
          | .ok vals => ({ param with handleNfrom := copied vals param.handleNfrom }, 0)

/-- The groups of values of a parameter text in their order, each as the statement that what it would write
is there already. -/
def groups (paramStr : CText) (param : ActionParam) : List (Except Int Prop) :=
  [(parseDoubles scanDouble (paramStr.getValueBykey labelFrmTh) numStreet).map fun vals =>
      copied vals param.frmThs = param.frmThs,
    (parseBools (paramStr.getValueBykey labelFilterFlag) numStreet).map fun vals =>
      copied vals param.filterFlags = param.filterFlags,
    (parseDoubles scanDouble (paramStr.getValueBykey labelPotTh) numStreet).map fun vals =>
      copied vals param.potThs = param.potThs,
    (parseInts (paramStr.getValueBykey labelRuleType) numStreet).map fun vals =>
      copied vals param.ruleTypes = param.ruleTypes,
    (parseBools (paramStr.getValueBykey labelHandleNfrm) numStreet).map fun vals =>
      copied vals param.handleNfrom = param.handleNfrom]

/-- Every group is well formed. -/
def Accepted (paramStr : CText) (param : ActionParam) : Prop :=
  ∀ group ∈ groups scanDouble paramStr param, group.isOk = true

/-- The groups before the first malformed one hold what is stored. -/
def HeldUntilError : List (Except Int Prop) → Prop
  | .ok held :: rest => held ∧ HeldUntilError rest
  | _ => True

/-- The text is accepted, or rejected before it changes a parameter. -/
def LeavesUnchanged (paramStr : CText) (param : ActionParam) : Prop :=
  Accepted scanDouble paramStr param ∨ HeldUntilError (groups scanDouble paramStr param)

variable {scanDouble} {paramStr : CText} {param : ActionParam}

theorem parseValues_error {α : Type} {scan : List Char → Option α} {str : List Char} {count : Nat} {flag : Int}
    (h : parseValues scan str count = .error flag) : flag = -1 ∨ flag = -2 := by
  unfold parseValues at h
  dsimp only at h
  split at h
  · cases h
    exact Or.inr rfl
  · split at h
    · cases h
      exact Or.inl rfl
    · cases h

/-- The values of all groups. -/
structure GroupValues where
  frmThs : List Double
  filterFlags : List Bool
  potThs : List Double
  ruleTypes : List Int
  handleNfrom : List Bool

def GroupValues.write (vals : GroupValues) (param : ActionParam) : ActionParam where
  filterFlags := copied vals.filterFlags param.filterFlags
  handleNfrom := copied vals.handleNfrom param.handleNfrom
  ruleTypes := copied vals.ruleTypes param.ruleTypes
  frmThs := copied vals.frmThs param.frmThs
  potThs := copied vals.potThs param.potThs

/-- A text either has the values of all groups, or it is rejected with a code of its own and keeps the parameters
that hold what the groups before the malformed one write. -/
theorem setActionParam_cases (scanDouble : List Char → Option Double) (paramStr : CText) :
    (∃ vals : GroupValues, ∀ param, Accepted scanDouble paramStr param ∧
      setActionParam scanDouble paramStr param = (vals.write param, 0)) ∨
      ∃ code ≠ 0, ∀ param, ¬ Accepted scanDouble paramStr param ∧
        (setActionParam scanDouble paramStr param).2 = code ∧
        ((setActionParam scanDouble paramStr param).1 = param ↔ HeldUntilError (groups scanDouble paramStr param)) := by
  have hcode : ∀ {α : Type} {scan : List Char → Option α} {str : List Char} {flag : Int} (group : Int),
      parseValues scan str numStreet = .error flag → group ≤ 0 → group + flag ≠ 0 := by
    intro α scan str flag group h hgroup
    rcases parseValues_error h with rfl | rfl <;> omega
  unfold setActionParam Accepted groups
  generalize hfrm : parseDoubles scanDouble (paramStr.getValueBykey labelFrmTh) numStreet = frmThs
  generalize hfilter : parseBools (paramStr.getValueBykey labelFilterFlag) numStreet = filterFlags
  generalize hpot : parseDoubles scanDouble (paramStr.getValueBykey labelPotTh) numStreet = potThs
  generalize hrule : parseInts (paramStr.getValueBykey labelRuleType) numStreet = ruleTypes
  generalize hhandle : parseBools (paramStr.getValueBykey labelHandleNfrm) numStreet = handleNfrom
  cases frmThs with
  | error flag =>
    refine Or.inr ⟨(-1000) + flag, hcode (-1000) hfrm (by decide), fun param => ⟨?_, rfl, ?_⟩⟩
    · simp [Except.map, Except.isOk, Except.toBool]
    · cases param
      simp [Except.map, HeldUntilError]
  | ok frmThs =>
    cases filterFlags with
    | error flag =>
      refine Or.inr ⟨(-2000) + flag, hcode (-2000) hfilter (by decide), fun param => ⟨?_, rfl, ?_⟩⟩
      · simp [Except.map, Except.isOk, Except.toBool]
      · cases param
        simp [Except.map, HeldUntilError]
    | ok filterFlags =>
      cases potThs with
      | error flag =>
        refine Or.inr ⟨(-3000) + flag, hcode (-3000) hpot (by decide), fun param => ⟨?_, rfl, ?_⟩⟩
        · simp [Except.map, Except.isOk, Except.toBool]
        · cases param
          simp only [Except.map, HeldUntilError, ActionParam.mk.injEq]
          tauto
      | ok potThs =>
        cases ruleTypes with
        | error flag =>
          refine Or.inr ⟨(-4000) + flag, hcode (-4000) hrule (by decide), fun param => ⟨?_, rfl, ?_⟩⟩
          · simp [Except.map, Except.isOk, Except.toBool]
          · cases param
            simp only [Except.map, HeldUntilError, ActionParam.mk.injEq]
            tauto
        | ok ruleTypes =>
          cases handleNfrom with
          | error flag =>
            refine Or.inr ⟨(-5000) + flag, hcode (-5000) hhandle (by decide), fun param => ⟨?_, rfl, ?_⟩⟩
            · simp [Except.map, Except.isOk, Except.toBool]
            · cases param
              simp only [Except.map, HeldUntilError, ActionParam.mk.injEq]
              tauto
          | ok handleNfrom =>
            refine Or.inl ⟨⟨frmThs, filterFlags, potThs, ruleTypes, handleNfrom⟩, fun param => ⟨?_, rfl⟩⟩
            simp [Except.map, Except.isOk, Except.toBool]

theorem setActionParam_accepts_iff :
    (setActionParam scanDouble paramStr param).2 = 0 ↔ Accepted scanDouble paramStr param := by
  obtain ⟨vals, hvals⟩ | ⟨code, hcode, hrejected⟩ := setActionParam_cases scanDouble paramStr
  · obtain ⟨haccepted, hresult⟩ := hvals param
    rw [hresult]
    exact iff_of_true rfl haccepted
  · obtain ⟨haccepted, hresult, _⟩ := hrejected param
    rw [hresult]
    exact iff_of_false hcode haccepted

theorem setActionParam_unchanged_iff :
    ((setActionParam scanDouble paramStr param).2 ≠ 0 → (setActionParam scanDouble paramStr param).1 = param) ↔
      LeavesUnchanged scanDouble paramStr param := by
  unfold LeavesUnchanged
  obtain ⟨vals, hvals⟩ | ⟨code, hcode, hrejected⟩ := setActionParam_cases scanDouble paramStr
  · obtain ⟨haccepted, hresult⟩ := hvals param
    rw [hresult]
    exact iff_of_true (fun h => absurd rfl h) (Or.inl haccepted)
  · obtain ⟨haccepted, hresult, hkept⟩ := hrejected param
    rw [hresult, hkept, or_iff_right haccepted]
    exact imp_iff_right hcode

theorem setActionParam_code (param param' : ActionParam) :
    (setActionParam scanDouble paramStr param).2 = (setActionParam scanDouble paramStr param').2 := by
  obtain ⟨vals, hvals⟩ | ⟨code, _, hrejected⟩ := setActionParam_cases scanDouble paramStr
  · rw [(hvals param).2, (hvals param').2]
  · rw [(hrejected param).2.1, (hrejected param').2.1]

theorem copied_copied {α : Type} (vals : List α) (old : Fin 4 → α) :
    copied vals (copied vals old) = copied vals old := by
  funext i
  cases h : vals[(i : Nat)]? with
  | none => simp [copied, List.getD_eq_getElem?_getD, h]
  | some v => simp [copied, List.getD_eq_getElem?_getD, h]

theorem GroupValues.write_write (vals : GroupValues) (param : ActionParam) :
    vals.write (vals.write param) = vals.write param := by
  unfold GroupValues.write
  simp only [copied_copied]

/-- A text that was accepted is accepted again and then writes what is there. -/
theorem setActionParam_again (h : (setActionParam scanDouble paramStr param).2 = 0) :
    setActionParam scanDouble paramStr (setActionParam scanDouble paramStr param).1 =
      ((setActionParam scanDouble paramStr param).1, 0) := by
  obtain ⟨vals, hvals⟩ | ⟨code, hcode, hrejected⟩ := setActionParam_cases scanDouble paramStr
  · rw [(hvals param).2, (hvals _).2, vals.write_write]
  · exact absurd ((hrejected param).2.1.symm.trans h) hcode

end

end ParamHandle

open ParamHandle

/-- The constructor of `ActionParam`. -/
def ActionParam.initial : ActionParam where
  filterFlags := fun _ => true
  handleNfrom := fun _ => false
  ruleTypes := fun _ => 0
  frmThs := fun _ => .finite 1
  potThs := fun _ => .finite 3

/-- The loaded models with the texts of their parameters. -/
structure ModelConf where
  conf : Conf
  scanDouble : List Char → Option Double
  cfrParam : List Char → CText
  paramErrors : ∀ cfr ∈ conf.cfrServers, ∀ param,
    cfr.paramError = (setActionParam scanDouble (cfrParam cfr.cfrModel) param).2

/-- A session with the parameters of its model. -/
structure ModelSession where
  game : RunGame
  actionParam : ActionParam

namespace ModelSession

variable (mc : ModelConf) (env : Env)

def setCfrModelLoop (s : ModelSession) : Nat → List Char → ModelSession × Int
  | again, model =>
    if model = s.game.cfrModel ∧ s.game.cfrServerID > 0 then (s, 0)
    else if model.length > 60 then (s, -100)
    else
      match mc.conf.getCfrServer model with
      | none => (s, -101)
      | some cfr =>
        if ¬env.connected cfr.serverID then
          match again with
          | 0 => (s, -105)
          | again + 1 => setCfrModelLoop s again (mc.conf.selectValidModel model)
        else
          match setActionParam mc.scanDouble (mc.cfrParam model) s.actionParam with
          | (param, nErrCode) =>
            if nErrCode ≠ 0 then ({ s with actionParam := param }, -102)
            else ({ game := { s.game with cfrModel := model, cfrServerID := cfr.serverID }, actionParam := param }, 0)

/-- `SetCfrModel` with the parameters. -/
def setCfrModel (s : ModelSession) (aiMode : Int) : ModelSession × Int :=
  setCfrModelLoop mc env s 1 (mc.conf.selectCfrModel aiMode s.game.gameBeginTimes)

/-- The model whose parameters `SetCfrModel` comes to apply. -/
def appliedLoop (s : ModelSession) : Nat → List Char → Option (List Char)
  | again, model =>
    if model = s.game.cfrModel ∧ s.game.cfrServerID > 0 then none
    else if model.length > 60 then none
    else
      match mc.conf.getCfrServer model with
      | none => none
      | some cfr =>
        if ¬env.connected cfr.serverID then
          match again with
          | 0 => none
          | again + 1 => appliedLoop s again (mc.conf.selectValidModel model)
        else some model

def appliedModel (s : ModelSession) (aiMode : Int) : Option (List Char) :=
  appliedLoop mc env s 1 (mc.conf.selectCfrModel aiMode s.game.gameBeginTimes)

/-- The model name, the server and the parameters of a session belong together. -/
def Consistent (s : ModelSession) : Prop :=
  (s.game.cfrModel = [] ∧ s.game.cfrServerID = 0 ∧ s.actionParam = ActionParam.initial) ∨
    ∃ cfr, mc.conf.getCfrServer s.game.cfrModel = some cfr ∧ s.game.cfrServerID = cfr.serverID ∧
      setActionParam mc.scanDouble (mc.cfrParam s.game.cfrModel) s.actionParam = (s.actionParam, 0)

variable {mc env} {s : ModelSession}

/-- What a call does, by the model whose parameters it applies. -/
theorem setCfrModelLoop_cases (again : Nat) (model : List Char) :
    (appliedLoop mc env s again model = none ∧ (setCfrModelLoop mc env s again model).1 = s) ∨
      ∃ applied cfr, appliedLoop mc env s again model = some applied ∧
        mc.conf.getCfrServer applied = some cfr ∧
        setCfrModelLoop mc env s again model =
          (let r := setActionParam mc.scanDouble (mc.cfrParam applied) s.actionParam
          if r.2 ≠ 0 then ({ s with actionParam := r.1 }, -102)
          else ({ game := { s.game with cfrModel := applied, cfrServerID := cfr.serverID }, actionParam := r.1 }, 0)) := by
  fun_induction appliedLoop mc env s again model with
  | case1 again model hsame =>
    unfold setCfrModelLoop
    exact Or.inl ⟨rfl, by rw [if_pos hsame]⟩
  | case2 again model hsame hlong =>
    unfold setCfrModelLoop
    exact Or.inl ⟨rfl, by rw [if_neg hsame, if_pos hlong]⟩
  | case3 again model hsame hlong hcfr =>
    unfold setCfrModelLoop
    exact Or.inl ⟨rfl, by rw [if_neg hsame, if_neg hlong, hcfr]⟩
  | case4 model hsame hlong cfr hcfr hconn =>
    unfold setCfrModelLoop
    refine Or.inl ⟨rfl, ?_⟩
    rw [if_neg hsame, if_neg hlong, hcfr]
    simp only [if_pos hconn]
  | case5 model hsame hlong cfr hcfr hconn again ih =>
    unfold setCfrModelLoop
    rw [if_neg hsame, if_neg hlong, hcfr]
    simpa only [if_pos hconn] using ih
  | case6 again model hsame hlong cfr hcfr hconn =>
    refine Or.inr ⟨model, cfr, rfl, hcfr, ?_⟩
    unfold setCfrModelLoop
    rw [if_neg hsame, if_neg hlong, hcfr]
    simp only [if_neg hconn]

/-- A failing `SetCfrModel` leaves the session as it was exactly when the parameters it applies are accepted,
or hold what is stored up to the first malformed group. -/
theorem setCfrModel_unchanged_iff (aiMode : Int) :
    ((s.setCfrModel mc env aiMode).2 ≠ 0 → (s.setCfrModel mc env aiMode).1 = s) ↔
      ∀ model, s.appliedModel mc env aiMode = some model →
        LeavesUnchanged mc.scanDouble (mc.cfrParam model) s.actionParam := by
  unfold setCfrModel appliedModel
  obtain ⟨hnone, hsame⟩ | ⟨applied, cfr, happlied, hcfr, hresult⟩ := @setCfrModelLoop_cases mc env s 1
    (mc.conf.selectCfrModel aiMode s.game.gameBeginTimes)
  · rw [hnone]
    exact iff_of_true (fun _ => hsame) (fun _ h => by cases h)
  · have hunchanged := @setActionParam_unchanged_iff mc.scanDouble (mc.cfrParam applied) s.actionParam
    rw [happlied, hresult]
    simp only [Option.some.injEq, forall_eq', ← hunchanged]
    split
    next hcode =>
      constructor
      · intro h _
        exact congrArg ModelSession.actionParam (h (show (-102 : Int) ≠ 0 by decide))
      · intro h _
        rw [h hcode]
    next hcode => simp [not_not.mp hcode]

theorem setCfrModel_consistent {aiMode : Int} (hs : s.Consistent mc)
    (h : ∀ model, s.appliedModel mc env aiMode = some model →
      LeavesUnchanged mc.scanDouble (mc.cfrParam model) s.actionParam) :
    (s.setCfrModel mc env aiMode).1.Consistent mc := by
  have hkept := (setCfrModel_unchanged_iff aiMode).mpr h
  by_cases hfail : (s.setCfrModel mc env aiMode).2 = 0
  · unfold setCfrModel at hfail ⊢
    obtain ⟨-, hsame⟩ | ⟨applied, cfr, happlied, hcfr, hresult⟩ := @setCfrModelLoop_cases mc env s 1
      (mc.conf.selectCfrModel aiMode s.game.gameBeginTimes)
    · rw [hsame]
      exact hs
    · rw [hresult] at hfail ⊢
      dsimp only at hfail ⊢
      split at hfail
      next => exact absurd hfail (show (-102 : Int) ≠ 0 by decide)
      next hcode =>
        rw [if_neg hcode]
        exact Or.inr ⟨cfr, hcfr, rfl, setActionParam_again (not_not.mp hcode)⟩
  · rw [hkept hfail]
    exact hs

/-- The session without the parameters is that of `RunGame.setCfrModel`. -/
theorem setCfrModel_game (aiMode : Int) :
    s.game.setCfrModel mc.conf env aiMode =
      if (s.setCfrModel mc env aiMode).2 = 0 then .ok (s.setCfrModel mc env aiMode).1.game
      else .error (s.setCfrModel mc env aiMode).2 := by
  unfold setCfrModel RunGame.setCfrModel
  generalize 1 = again
  generalize mc.conf.selectCfrModel aiMode s.game.gameBeginTimes = model
  fun_induction appliedLoop mc env s again model with
  | case1 again model hsame =>
    unfold setCfrModelLoop RunGame.setCfrModelLoop
    rw [if_pos hsame, if_pos hsame]
    rfl
  | case2 again model hsame hlong =>
    unfold setCfrModelLoop RunGame.setCfrModelLoop
    rw [if_neg hsame, if_neg hsame, if_pos hlong, if_pos hlong]
    rfl
  | case3 again model hsame hlong hcfr =>
    unfold setCfrModelLoop RunGame.setCfrModelLoop
    rw [if_neg hsame, if_neg hsame, if_neg hlong, if_neg hlong, hcfr]
    rfl
  | case4 model hsame hlong cfr hcfr hconn =>
    unfold setCfrModelLoop RunGame.setCfrModelLoop
    rw [if_neg hsame, if_neg hsame, if_neg hlong, if_neg hlong, hcfr]
    simp only [if_pos hconn]
    rfl
  | case5 model hsame hlong cfr hcfr hconn again ih =>
    unfold setCfrModelLoop RunGame.setCfrModelLoop
    rw [if_neg hsame, if_neg hsame, if_neg hlong, if_neg hlong, hcfr]
    simpa only [if_pos hconn] using ih
  | case6 again model hsame hlong cfr hcfr hconn =>
    have hmodel : cfr.cfrModel = model := by simpa [Conf.getCfrServer] using List.find?_some hcfr
    have herror := mc.paramErrors cfr (List.mem_of_find?_eq_some hcfr) s.actionParam
    rw [hmodel] at herror
    unfold setCfrModelLoop RunGame.setCfrModelLoop
    rw [if_neg hsame, if_neg hsame, if_neg hlong, if_neg hlong, hcfr]
    simp only [if_neg hconn, herror]
    by_cases hcode : (setActionParam mc.scanDouble (mc.cfrParam model) s.actionParam).2 = 0
    · simp only [hcode]
      rfl
    · simp only [if_pos hcode]
      rfl

/-- Which parameter texts leave the parameters and the session as they were when they are rejected. -/
theorem rejected_params_unchanged_iff (mc : ModelConf) (env : Env) :
    (∀ paramStr param, ((setActionParam mc.scanDouble paramStr param).2 ≠ 0 →
        (setActionParam mc.scanDouble paramStr param).1 = param) ↔ LeavesUnchanged mc.scanDouble paramStr param) ∧
    ∀ (s : ModelSession) (aiMode : Int),
      (((s.setCfrModel mc env aiMode).2 ≠ 0 → (s.setCfrModel mc env aiMode).1 = s) ↔
        ∀ model, s.appliedModel mc env aiMode = some model →
          LeavesUnchanged mc.scanDouble (mc.cfrParam model) s.actionParam) ∧
      (s.Consistent mc → (∀ model, s.appliedModel mc env aiMode = some model →
          LeavesUnchanged mc.scanDouble (mc.cfrParam model) s.actionParam) →
        (s.setCfrModel mc env aiMode).1.Consistent mc) :=
  ⟨fun _ _ => setActionParam_unchanged_iff,
    fun _ aiMode => ⟨setCfrModel_unchanged_iff aiMode, fun hs h => setCfrModel_consistent hs h⟩⟩

/-- The conversion `%lf` of a whole number. -/
def scanWhole (text : List Char) : Option Double := (scanAnyInt32 text).map Double.ofInt

/-- One model whose parameters are the text. -/
def oneModel (text : List Char) : ModelConf where
  conf := { tableConf with
    cfrServers := [⟨['m'], 1, (setActionParam scanWhole ⟨text, []⟩ ActionParam.initial).2⟩] }
  scanDouble := scanWhole
  cfrParam := fun _ => ⟨text, []⟩
  paramErrors := by
    intro cfr hcfr param
    rw [List.mem_singleton.mp hcfr]
    exact setActionParam_code _ _

def newModelSession : ModelSession := ⟨newSession robotSeat, ActionParam.initial⟩

def wholeText : List Char :=
  "frm_th=2,2,2,2 filter_flag=1,1,1,1 pot_th=3,3,3,3 rule_type=0,0,0,0 handle_nfrm=0,0,0,0".toList

theorem newModelSession_wholeText :
    (newModelSession.setCfrModel (oneModel wholeText) (callingEnv 0) 0).1.Consistent (oneModel wholeText) ∧
      (newModelSession.setCfrModel (oneModel wholeText) (callingEnv 0) 0).1.actionParam.frmThs 0 = .finite 2 := by
  have haccepted : (setActionParam (oneModel wholeText).scanDouble ((oneModel wholeText).cfrParam ['m'])
      newModelSession.actionParam).2 = 0 := by decide +kernel
  refine ⟨((rejected_params_unchanged_iff (oneModel wholeText) (callingEnv 0)).2 newModelSession 0).2
    (Or.inl ⟨rfl, rfl, rfl⟩) ?_, by decide +kernel⟩
  intro model hmodel
  have happlied : newModelSession.appliedModel (oneModel wholeText) (callingEnv 0) 0 = some ['m'] := by decide +kernel
  cases happlied.symm.trans hmodel
  exact Or.inl (setActionParam_accepts_iff.mp haccepted)

/-- The first group is stored before the second is found missing, under the old model. -/
theorem rejected_params_overwritten :
    ¬((setActionParam scanWhole ⟨"frm_th=2,2,2,2".toList, []⟩ ActionParam.initial).2 ≠ 0 →
      (setActionParam scanWhole ⟨"frm_th=2,2,2,2".toList, []⟩ ActionParam.initial).1 = ActionParam.initial) ∧
    ¬((newModelSession.setCfrModel (oneModel "frm_th=2,2,2,2".toList) (callingEnv 0) 0).2 ≠ 0 →
      (newModelSession.setCfrModel (oneModel "frm_th=2,2,2,2".toList) (callingEnv 0) 0).1 = newModelSession) := by
  constructor
  · intro h
    have hfrm := congrArg (fun param => param.frmThs 0) (h (by decide +kernel))
    exact absurd hfrm (by decide +kernel)
  · intro h
    have hfrm := congrArg (fun s => s.actionParam.frmThs 0) (h (by decide +kernel))
    exact absurd hfrm (by decide +kernel)

end ModelSession

end MasterAI
