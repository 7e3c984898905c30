import MasterAI.DecimalText
import MasterAI.TextReplace
import Mathlib.Data.List.GetD
import Mathlib.Data.List.TakeWhile

namespace MasterAI

namespace StrUtil

/-- The text of a string that C ends at its first zero character. -/
def cText (text : List Char) : List Char := text.takeWhile (· ≠ '\x00')

/-- `i32tostr` of an index between braces. -/
def formatKey (i : Nat) : List Char := '{' :: printInt (wrapInt32 i) ++ ['}']

/-- The loop over the places of one key. It ends at the first place that `find` returns; where there is none it asks
to replace at `npos`, which throws, so that no second round begins. -/
def replaceKey (fstr key val : List Char) : Option (List Char) :=
  let pos := firstOccurrence key fstr
  if pos.isSome then some fstr else pos.map fun pos => replaceAt pos key.length val fstr

/-- `strreplace` into a string; nothing where it throws. -/
def strreplace (format : List Char) (vec : List (List Char)) : Option (List Char) :=
  (List.range vec.length).foldlM (fun fstr i => replaceKey fstr (formatKey i) (vec.getD i [])) (cText format)

/-- The text that `strreplace` leaves in a buffer that is long enough for it. -/
def strreplaceBuffer (format : List Char) (vec : List (List Char)) : Option (List Char) :=
  (strreplace format vec).map cText

/-- The format with each key of an index replaced by the text of that index. -/
def formatted (format : List Char) (vec : List (List Char)) : List Char :=
  replaceTable ((List.range vec.length).map fun i => ('{' :: printNat i ++ ['}'], vec.getD i [])) 0 (cText format)

theorem replaceKey_eq {fstr key val : List Char} :
    replaceKey fstr key val = if key <:+: fstr then some fstr else none := by
  unfold replaceKey
  by_cases hin : key <:+: fstr
  · rw [if_pos hin]
    exact if_pos (firstOccurrence_isSome.mpr hin)
  · rw [if_neg hin, firstOccurrence_eq_none.mpr hin]
    rfl

/-- No key is ever replaced. -/
theorem strreplace_eq (format : List Char) (vec : List (List Char)) :
    strreplace format vec =
      if ∀ i < vec.length, formatKey i <:+: cText format then some (cText format) else none := by
  unfold strreplace
  simp only [replaceKey_eq]
  generalize cText format = fstr
  induction vec.length with
  | zero => simp
  | succ n ih =>
    rw [List.range_succ, List.foldlM_append, ih]
    by_cases hall : ∀ i < n, formatKey i <:+: fstr
    · rw [if_pos hall]
      simp only [Option.bind_eq_bind, Option.bind_some, List.foldlM_cons, List.foldlM_nil]
      by_cases hlast : formatKey n <:+: fstr
      · have hsucc : ∀ i < n + 1, formatKey i <:+: fstr := by
          intro i hi
          rcases Nat.lt_succ_iff_lt_or_eq.mp hi with hi | rfl
          · exact hall i hi
          · exact hlast
        rw [if_pos hlast, if_pos hsucc]
        rfl
      · rw [if_neg hlast, if_neg fun hsucc => hlast (hsucc n (Nat.lt_succ_self n))]
        rfl
    · rw [if_neg hall, if_neg fun hsucc => hall fun i hi => hsucc i (Nat.lt_succ_of_lt hi)]
      rfl

theorem formatKey_zero : formatKey 0 = ['{', '0', '}'] := by decide

/-- Where the format has the first key, the replaced text has fewer braces. -/
theorem count_formatted {format : List Char} {vec : List (List Char)} (hvec : ∀ v ∈ vec, '{' ∉ v ∧ '}' ∉ v)
    (hne : vec ≠ []) (hin : formatKey 0 <:+: cText format) :
    (formatted format vec).count '{' < (cText format).count '{' := by
  have hpos : 0 < vec.length := List.length_pos_iff.mpr hne
  refine count_replaceTable_lt ?_ ?_ (List.mem_map.mpr ⟨0, List.mem_range.mpr hpos, rfl⟩) ?_
  · intro e he
    obtain ⟨i, hi, rfl⟩ := List.mem_map.mp he
    have hi := List.mem_range.mp hi
    dsimp only
    rw [List.getD_eq_getElem _ _ hi]
    exact (hvec _ (List.getElem_mem hi)).1
  · intro e he
    obtain ⟨i, -, rfl⟩ := List.mem_map.mp he
    rfl
  · rw [formatKey_zero] at hin
    exact hin

theorem cText_cText (text : List Char) : cText (cText text) = cText text := List.takeWhile_idem

/-- Exactly without replacement texts are all keys replaced without an exception. -/
theorem strreplace_formatted_iff (format : List Char) (vec : List (List Char)) (hvec : ∀ v ∈ vec, '{' ∉ v ∧ '}' ∉ v) :
    (strreplace format vec = some (formatted format vec) ↔ vec = []) ∧
      (strreplaceBuffer format vec = some (cText (formatted format vec)) ↔ vec = []) := by
  have hempty : formatted format [] = cText format := replaceTable_nil _
  rw [strreplaceBuffer, strreplace_eq]
  by_cases hvecnil : vec = []
  · subst hvecnil
    rw [if_pos (by simp), hempty]
    exact ⟨iff_of_true rfl rfl, iff_of_true rfl rfl⟩
  by_cases hall : ∀ i < vec.length, formatKey i <:+: cText format
  · have hlt := count_formatted hvec hvecnil (hall 0 (List.length_pos_iff.mpr hvecnil))
    rw [if_pos hall]
    constructor
    · refine iff_of_false (fun heq => ?_) hvecnil
      rw [Option.some.injEq] at heq
      rw [← heq] at hlt
      exact lt_irrefl _ hlt
    · refine iff_of_false (fun heq => ?_) hvecnil
      rw [Option.map_some, cText_cText, Option.some.injEq] at heq
      have hcut : (cText (formatted format vec)).count '{' ≤ (formatted format vec).count '{' :=
        (List.takeWhile_sublist _).count_le '{'
      rw [← heq] at hcut
      exact absurd hlt (Nat.not_lt_of_le hcut)
  · rw [if_neg hall]
    exact ⟨iff_of_false nofun hvecnil, iff_of_false nofun hvecnil⟩

/-- A text in braces stays where it is, and a format without a place for it raises an exception. -/
theorem strreplace_oneKey :
    strreplace ['a', '{', '0', '}', 'b'] [['x']] ≠ some (formatted ['a', '{', '0', '}', 'b'] [['x']]) ∧
      strreplace ['a'] [] = some (formatted ['a'] []) :=
  ⟨fun h => absurd ((strreplace_formatted_iff _ [['x']] (by decide)).1.mp h) (by decide),
    (strreplace_formatted_iff ['a'] [] (by decide)).1.mpr rfl⟩

/-- `a{0}b` with one text is left as it is, and `ab` with one text raises an exception. -/
theorem strreplace_not_formatted :
    ¬(∀ format vec, (∀ v ∈ vec, '{' ∉ v ∧ '}' ∉ v) → strreplace format vec = some (formatted format vec)) ∧
      strreplace ['a', '{', '0', '}', 'b'] [['x']] = some ['a', '{', '0', '}', 'b'] ∧
      formatted ['a', '{', '0', '}', 'b'] [['x']] = ['a', 'x', 'b'] ∧ strreplace ['a', 'b'] [['x']] = none := by
  refine ⟨fun hall => ?_, by decide, by decide, by decide⟩
  have hkept := hall ['a', '{', '0', '}', 'b'] [['x']] (by decide)
  exact absurd hkept (by decide)

end StrUtil

end MasterAI
