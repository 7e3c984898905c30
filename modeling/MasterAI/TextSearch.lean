import Mathlib.Data.List.Infix

namespace MasterAI

/-- The text from the first occurrence of `needle` on. -/
def strstr (needle : List Char) : List Char → Option (List Char)
  | [] => if needle = [] then some [] else none
  | c :: text => if needle <+: c :: text then some (c :: text) else strstr needle text

/-- The search skips a text without the first character of the needle. -/
theorem strstr_append {c : Char} {n s r : List Char} (h : c ∉ s) :
    strstr (c :: n) (s ++ (c :: n ++ r)) = some (c :: n ++ r) := by
  induction s with
  | nil => simp [strstr]
  | cons d s ih =>
    obtain ⟨hd, hrest⟩ := not_or.mp (List.mem_cons.not.mp h)
    have hfirst : ¬c :: n <+: d :: (s ++ (c :: n ++ r)) := by
      intro hpre
      exact hd (List.cons_prefix_cons.mp hpre).1
    rw [List.cons_append, strstr, if_neg hfirst, ih hrest]

/-- A needle without the separator ends before it. -/
theorem prefix_of_prefix_append_cons {needle a b : List Char} {d : Char} (hd : d ∉ needle)
    (h : needle <+: a ++ d :: b) : needle <+: a := by
  rcases Nat.lt_or_ge a.length needle.length with hlt | hle
  · have hto : a ++ [d] <+: a ++ d :: b := ⟨b, by simp⟩
    have hlen : (a ++ [d]).length ≤ needle.length := by
      rw [List.length_append, List.length_singleton]
      omega
    have hsub := List.prefix_of_prefix_length_le hto h hlen
    exact absurd (hsub.subset (by simp)) hd
  · exact List.prefix_of_prefix_length_le h (List.prefix_append a _) hle

/-- A needle without the separator lies on one side of it. -/
theorem infix_append_cons {needle a b : List Char} {d : Char} (hd : d ∉ needle)
    (h : needle <:+: a ++ d :: b) : needle <:+: a ∨ needle <:+: b := by
  induction a with
  | nil =>
    rcases List.infix_cons_iff.mp h with hpre | hin
    · exact Or.inl (prefix_of_prefix_append_cons (a := []) hd hpre).isInfix
    · exact Or.inr hin
  | cons x a ih =>
    rcases List.infix_cons_iff.mp h with hpre | hin
    · exact Or.inl (prefix_of_prefix_append_cons (a := x :: a) hd hpre).isInfix
    · rcases ih hin with hin | hin
      · exact Or.inl (hin.trans (List.suffix_cons x a).isInfix)
      · exact Or.inr hin

/-- The search passes over a text without the needle and a separator that the needle does not have. -/
theorem strstr_skip {needle a b : List Char} {d : Char} (hd : d ∉ needle) (ha : ¬needle <:+: a) :
    strstr needle (a ++ d :: b) = strstr needle b := by
  induction a with
  | nil =>
    have hfirst : ¬needle <+: d :: b :=
      fun hpre => ha (prefix_of_prefix_append_cons (a := []) hd hpre).isInfix
    rw [List.nil_append, strstr, if_neg hfirst]
  | cons x a ih =>
    have hfirst : ¬needle <+: x :: (a ++ d :: b) :=
      fun hpre => ha (prefix_of_prefix_append_cons (a := x :: a) hd hpre).isInfix
    have hrest : ¬needle <:+: a := fun h => ha (h.trans (List.suffix_cons x a).isInfix)
    rw [List.cons_append, strstr, if_neg hfirst, ih hrest]

theorem strstr_eq_none {needle text : List Char} (h : ¬needle <:+: text) : strstr needle text = none := by
  induction text with
  | nil =>
    have hne : needle ≠ [] := by
      rintro rfl
      exact h List.nil_infix
    rw [strstr, if_neg hne]
  | cons c text ih =>
    have hfirst : ¬needle <+: c :: text := fun hpre => h hpre.isInfix
    have hrest : ¬needle <:+: text := fun hin => h (hin.trans (List.suffix_cons c text).isInfix)
    rw [strstr, if_neg hfirst, ih hrest]

theorem not_infix_of_not_mem {c : Char} {needle text : List Char} (hc : c ∈ needle) (h : c ∉ text) :
    ¬needle <:+: text :=
  fun hin => h (hin.subset hc)

end MasterAI
