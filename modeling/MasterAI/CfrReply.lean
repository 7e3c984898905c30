import MasterAI.CfrTransport

namespace MasterAI

/-- The pieces of a text between the places where a separator is found, for some places at most. -/
def splitFrom (c : List Char) : Nat → List Char → List (List Char)
  | 0, rest => if rest = [] then [] else [rest]
  | places + 1, rest =>
    match strstr c rest with
    | some found => rest.take (rest.length - found.length) :: splitFrom c places (found.drop c.length)
    | none => if rest = [] then [] else [rest]

/-- `SplitString`. A text has no more places of a separator than characters. -/
def splitString (s c : List Char) : List (List Char) := splitFrom c s.length s

/-- A parsed object, by the strings of its members. -/
abbrev JsonStrings := List Char → List Char

/-- The conversion `%u` for every piece; nothing where one fails. -/
def scanValues (pieces : List (List Char)) : Option (List Nat) :=
  pieces.mapM fun piece => (scanUnsigned 32 piece).map Prod.fst

/-- `ConvertResponseStrToVals` with a parser for the reply: the values, or the error. -/
def convertResponseStrToVals (parse : List Char → Option JsonStrings) (responseStr : List Char) (numSucc : Int) :
    Except Int (List Nat) :=
  match parse responseStr with
  | some value =>
    if value "res".toList ≠ "OK".toList then .error (-1)
    else
      let splitStr := splitString (value "vals".toList) [',']
      if (splitStr.length : Int) ≠ numSucc then .error (-2)
      else
        match scanValues splitStr with
        | none => .error (-3)
        | some vals => .ok vals
  | none => .error (-4)

/-- A text that stands in a string of the object as it is. -/
def JsonPlain (text : List Char) : Prop := ∀ c ∈ text, 32 ≤ c.toNat ∧ c.toNat < 127 ∧ c ≠ '"' ∧ c ≠ '\\'

instance (text : List Char) : Decidable (JsonPlain text) := List.decidableBAll _ text

/-- The parser gives back the strings of an object that `JointStr` has written. -/
def InvertsJointText (parse : List Char → Option JsonStrings) : Prop :=
  ∀ res note vals, JsonPlain res → JsonPlain note → JsonPlain vals →
    ∃ value, parse (jointText res note vals) = some value ∧ value "res".toList = res ∧ value "note".toList = note ∧
      value "vals".toList = vals

section

variable {parse : List Char → Option JsonStrings} {d : Char} {pieces : List (List Char)} {last : List Char}

/-- Pieces without the separator, of which the last is not empty, are found again. -/
theorem splitFrom_intercalate {places : Nat} (hplaces : pieces.length ≤ places) (hpieces : ∀ p ∈ pieces, d ∉ p)
    (hd : d ∉ last) (hlast : last ≠ []) :
    splitFrom [d] places (List.intercalate [d] (pieces ++ [last])) = pieces ++ [last] := by
  induction pieces generalizing places with
  | nil =>
    rw [List.nil_append, List.intercalate_singleton]
    cases places with
    | zero => rw [splitFrom, if_neg hlast]
    | succ places =>
      have hnone : strstr [d] last = none := strstr_eq_none (not_infix_of_not_mem (by simp) hd)
      simp only [splitFrom, hnone, if_neg hlast]
  | cons p pieces ih =>
    obtain ⟨k, rfl⟩ : ∃ k, places = k + 1 := ⟨places - 1, by simp only [List.length_cons] at hplaces; omega⟩
    have ih := ih (Nat.le_of_succ_le_succ hplaces) fun q hq => hpieces q (List.mem_cons_of_mem _ hq)
    have hsplit : List.intercalate [d] (p :: pieces ++ [last]) = p ++ ([d] ++ List.intercalate [d] (pieces ++ [last])) := by
      cases pieces with
      | nil => simp [List.intercalate_cons_cons, List.intercalate_singleton]
      | cons q pieces => simp [List.intercalate_cons_cons]
    have hfound : strstr [d] (p ++ ([d] ++ List.intercalate [d] (pieces ++ [last]))) =
        some ([d] ++ List.intercalate [d] (pieces ++ [last])) := strstr_append (hpieces p (by simp))
    rw [hsplit, splitFrom, hfound]
    dsimp only
    rw [take_length_sub, List.drop_left, ih]
    rfl

theorem length_le_intercalate : pieces.length ≤ (List.intercalate [d] (pieces ++ [last])).length := by
  induction pieces with
  | nil => exact Nat.zero_le _
  | cons p pieces ih =>
    cases pieces with
    | nil =>
      simp [List.intercalate_cons_cons]
      omega
    | cons q pieces =>
      rw [List.cons_append, List.cons_append, List.intercalate_cons_cons]
      simp only [List.length_append, List.length_cons, List.cons_append] at ih ⊢
      omega

theorem splitString_intercalate (hpieces : ∀ p ∈ pieces, d ∉ p) (hd : d ∉ last) (hlast : last ≠ []) :
    splitString (List.intercalate [d] (pieces ++ [last])) [d] = pieces ++ [last] :=
  splitFrom_intercalate length_le_intercalate hpieces hd hlast

theorem comma_notMem_printNat (n : Nat) : ',' ∉ printNat n := by
  intro hmem
  have hdigit := printNat_digits ',' hmem
  revert hdigit
  decide

/-- The numbers that the server writes are the pieces that the client finds. -/
theorem splitString_convertValToStr {vals : List UInt32} (hne : vals ≠ []) :
    splitString (convertValToStr vals) [','] = vals.map fun v => printNat v.toNat := by
  have hsplit : (vals.map fun v => printNat v.toNat) =
      (vals.dropLast.map fun v => printNat v.toNat) ++ [printNat (vals.getLast hne).toNat] := by
    nth_rewrite 1 [← List.dropLast_append_getLast hne]
    rw [List.map_append, List.map_singleton]
  rw [convertValToStr, hsplit]
  refine splitString_intercalate ?_ (comma_notMem_printNat _) (printNat_ne_nil _)
  intro p hp
  obtain ⟨v, -, rfl⟩ := List.mem_map.mp hp
  exact comma_notMem_printNat _

theorem scanValues_printNat (vals : List UInt32) :
    scanValues (vals.map fun v => printNat v.toNat) = some (vals.map fun v => v.toNat) := by
  have hscan : ∀ v : UInt32, (scanUnsigned 32 (printNat v.toNat)).map Prod.fst = some v.toNat := by
    intro v
    have hlt := v.toNat_lt
    have hstops : StopsNumber [] := by
      intro c hc
      cases hc
    have hscan := scanUnsigned_printNat 32 hlt (by omega) hstops
    rw [List.append_nil] at hscan
    rw [hscan]
    rfl
  induction vals with
  | nil => rfl
  | cons v vals ih =>
    rw [scanValues, List.map_cons, List.mapM_cons, hscan]
    rw [scanValues] at ih
    rw [ih]
    rfl

theorem jsonPlain_convertValToStr (vals : List UInt32) : JsonPlain (convertValToStr vals) := by
  have hdigit : ∀ c : Char, c.isDigit = true → 32 ≤ c.toNat ∧ c.toNat < 127 ∧ c ≠ '"' ∧ c ≠ '\\' := by
    intro c hc
    refine ⟨?_, ?_, ?_, ?_⟩
    · simp only [Char.isDigit, Bool.and_eq_true, decide_eq_true_eq, ge_iff_le, UInt32.le_iff_toNat_le] at hc
      have hlow : 48 ≤ c.toNat := hc.1
      omega
    · simp only [Char.isDigit, Bool.and_eq_true, decide_eq_true_eq, ge_iff_le, UInt32.le_iff_toNat_le] at hc
      have hhigh : c.toNat ≤ 57 := hc.2
      omega
    · rintro rfl
      revert hc
      decide
    · rintro rfl
      revert hc
      decide
  rw [convertValToStr]
  induction vals with
  | nil =>
    intro c hc
    cases hc
  | cons v vals ih =>
    have hfirst : JsonPlain (printNat v.toNat) := fun c hc => hdigit c (printNat_digits c hc)
    cases vals with
    | nil => rwa [List.map_singleton, List.intercalate_singleton]
    | cons w vals =>
      rw [List.map_cons, List.map_cons, List.intercalate_cons_cons]
      intro c hc
      rcases List.mem_append.mp hc with hc | hc
      · rcases List.mem_append.mp hc with hc | hc
        · exact hfirst c hc
        · rw [List.mem_singleton.mp hc]
          decide
      · exact ih c hc

/-- A reply that fits the buffer is read back whole, and no other count and no other status is accepted. -/
theorem reply_values_returned (hparse : InvertsJointText parse) :
    (∀ vals : List UInt32, vals ≠ [] → (respText vals).length ≤ 1023 →
      convertResponseStrToVals parse (jointStr "OK".toList "null".toList (convertValToStr vals)) vals.length =
          .ok (vals.map fun v => v.toNat) ∧
        ∀ numSucc : Int, numSucc ≠ vals.length → ∃ e,
          convertResponseStrToVals parse (jointStr "OK".toList "null".toList (convertValToStr vals)) numSucc = .error e) ∧
      ∀ res note vals, JsonPlain res → JsonPlain note → JsonPlain vals → (jointText res note vals).length ≤ 1023 →
        res ≠ "OK".toList → ∀ numSucc, ∃ e, convertResponseStrToVals parse (jointStr res note vals) numSucc = .error e := by
  refine ⟨?_, ?_⟩
  · intro vals hne hfits
    obtain ⟨value, hvalue, hres, -, hvals⟩ := hparse "OK".toList "null".toList (convertValToStr vals) (by decide) (by decide)
      (jsonPlain_convertValToStr vals)
    have hwhole : jointStr "OK".toList "null".toList (convertValToStr vals) =
        jointText "OK".toList "null".toList (convertValToStr vals) := List.take_of_length_le hfits
    have hconvert : ∀ numSucc : Int,
        convertResponseStrToVals parse (jointStr "OK".toList "null".toList (convertValToStr vals)) numSucc =
          if (vals.length : Int) ≠ numSucc then .error (-2) else .ok (vals.map fun v => v.toNat) := by
      intro numSucc
      rw [hwhole, convertResponseStrToVals, hvalue]
      dsimp only
      rw [if_neg (not_not.mpr hres), hvals, splitString_convertValToStr hne, scanValues_printNat, List.length_map]
    refine ⟨?_, ?_⟩
    · rw [hconvert, if_neg (by simp)]
    · intro numSucc hnum
      exact ⟨-2, by rw [hconvert, if_pos (Ne.symm hnum)]⟩
  · intro res note vals hres hnote hvals hfits hstatus numSucc
    obtain ⟨value, hvalue, hvalueRes, -⟩ := hparse res note vals hres hnote hvals
    refine ⟨-1, ?_⟩
    rw [jointStr, List.take_of_length_le hfits, convertResponseStrToVals, hvalue]
    dsimp only
    rw [if_pos (by rwa [hvalueRes])]

/-- Reads an object of three strings without escapes by its quotation marks. -/
def parseThreeStrings (text : List Char) : Option JsonStrings :=
  match splitString text ['"'] with
  | [_, name₁, _, string₁, _, name₂, _, string₂, _, name₃, _, string₃, _] =>
    some fun name => if name = name₁ then string₁ else if name = name₂ then string₂ else if name = name₃ then string₃ else []
  | _ => none

theorem parseThreeStrings_inverts : InvertsJointText parseThreeStrings := by
  intro res note vals hres hnote hvals
  have hquote : ∀ text, JsonPlain text → '"' ∉ text := fun text h hmem => (h '"' hmem).2.2.1 rfl
  have htext : jointText res note vals = List.intercalate ['"'] (["\x7b".toList, "res".toList, ":".toList, res, ", ".toList,
      "note".toList, ":".toList, note, ", ".toList, "vals".toList, ":".toList, vals] ++ ["\x7d".toList]) := by
    unfold jointText
    simp only [List.cons_append, List.nil_append, List.intercalate_cons_cons, List.intercalate_singleton, List.append_assoc,
      String.reduceToList]
  have hsplit : splitString (jointText res note vals) ['"'] = ["\x7b".toList, "res".toList, ":".toList, res, ", ".toList,
      "note".toList, ":".toList, note, ", ".toList, "vals".toList, ":".toList, vals] ++ ["\x7d".toList] := by
    rw [htext]
    refine splitString_intercalate ?_ (by decide) (by decide)
    intro p hp
    simp only [List.mem_cons, List.not_mem_nil, or_false] at hp
    rcases hp with rfl | rfl | rfl | rfl | rfl | rfl | rfl | rfl | rfl | rfl | rfl | rfl
    case inr.inr.inr.inl => exact hquote _ hres
    case inr.inr.inr.inr.inr.inr.inr.inl => exact hquote _ hnote
    case inr.inr.inr.inr.inr.inr.inr.inr.inr.inr.inr => exact hquote _ hvals
    all_goals decide
  refine ⟨_, by rw [parseThreeStrings, hsplit]; rfl, ?_, ?_, ?_⟩
  · rw [if_pos rfl]
  · rw [if_neg (by decide), if_pos rfl]
  · rw [if_neg (by decide), if_neg (by decide), if_pos rfl]

theorem reply_values_returned_twoValues :
    convertResponseStrToVals parseThreeStrings (jointStr "OK".toList "null".toList (convertValToStr [4294967295, 0])) 2 =
        .ok [4294967295, 0] ∧
      ∃ e, convertResponseStrToVals parseThreeStrings (jointStr "Error".toList "Invalid Key".toList "null".toList) 2 =
        .error e := by
  obtain ⟨hvalues, hstatus⟩ := reply_values_returned parseThreeStrings_inverts
  refine ⟨(hvalues [4294967295, 0] (by decide) (by decide)).1, ?_⟩
  exact hstatus "Error".toList "Invalid Key".toList "null".toList (by decide) (by decide) (by decide) (by decide) (by decide) 2

end

end MasterAI
