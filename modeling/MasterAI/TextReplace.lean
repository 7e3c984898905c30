import Mathlib.Data.List.Infix

namespace MasterAI

section

variable {α : Type*} [DecidableEq α]

/-- The place of the first occurrence of a pattern. -/
def firstOccurrence (pat : List α) : List α → Option Nat
  | [] => if pat = [] then some 0 else none
  | c :: text => if pat <+: c :: text then some 0 else (firstOccurrence pat text).map (· + 1)

/-- The text with some elements from a place on replaced. -/
def replaceAt (pos count : Nat) (val text : List α) : List α := text.take pos ++ val ++ text.drop (pos + count)

/-- The text with the occurrences of the patterns of a table, found from left to right without overlap, replaced by
their values. The first elements that are skipped belong to the last occurrence. -/
def replaceTable (table : List (List α × List α)) : Nat → List α → List α
  | _, [] => []
  | skip + 1, _ :: text => replaceTable table skip text
  | 0, c :: text =>
    match table.find? fun e => e.1 <+: c :: text with
    | some e => e.2 ++ replaceTable table (e.1.length - 1) text
    | none => c :: replaceTable table 0 text

/-- The text with the first occurrences of a pattern, found from left to right without overlap, replaced. -/
def replaceSome (pat val : List α) : Nat → Nat → List α → List α
  | _, _, [] => []
  | k, skip + 1, _ :: text => replaceSome pat val k skip text
  | 0, 0, c :: text => c :: text
  | k + 1, 0, c :: text =>
    if pat <+: c :: text then val ++ replaceSome pat val k (pat.length - 1) text
    else c :: replaceSome pat val (k + 1) 0 text

/-- The number of occurrences of a pattern, found from left to right without overlap. -/
def occurrences (pat : List α) : Nat → List α → Nat
  | _, [] => 0
  | skip + 1, _ :: text => occurrences pat skip text
  | 0, c :: text => if pat <+: c :: text then occurrences pat (pat.length - 1) text + 1 else occurrences pat 0 text

variable {pat val text u v : List α} {pos : Nat}

theorem firstOccurrence_isSome : (firstOccurrence pat text).isSome ↔ pat <:+: text := by
  induction text with
  | nil =>
    rw [firstOccurrence, List.infix_nil]
    split
    next h => simp [h]
    next h => simp [h]
  | cons c text ih =>
    rw [firstOccurrence, List.infix_cons_iff, ← ih]
    split
    next h => simp [h]
    next h => simp [h]

theorem firstOccurrence_eq_none : firstOccurrence pat text = none ↔ ¬pat <:+: text := by
  rw [← firstOccurrence_isSome, Option.not_isSome_iff_eq_none]

/-- The first occurrence splits the text, and no other begins before it. -/
theorem firstOccurrence_split (h : firstOccurrence pat text = some pos) :
    ∃ u v, text = u ++ pat ++ v ∧ u.length = pos ∧ ∀ u' v', text = u' ++ pat ++ v' → pos ≤ u'.length := by
  induction text generalizing pos with
  | nil =>
    rw [firstOccurrence] at h
    split at h
    next hpat =>
      cases h
      exact ⟨[], [], by simp [hpat], rfl, fun _ _ _ => Nat.zero_le _⟩
    next => cases h
  | cons c text ih =>
    rw [firstOccurrence] at h
    split at h
    next hpre =>
      cases h
      obtain ⟨v, hv⟩ := hpre
      exact ⟨[], v, hv.symm, rfl, fun _ _ _ => Nat.zero_le _⟩
    next hpre =>
      obtain ⟨p, hp, rfl⟩ := Option.map_eq_some_iff.mp h
      obtain ⟨u, v, rfl, hu, hfirst⟩ := ih hp
      refine ⟨c :: u, v, rfl, by rw [List.length_cons, hu], ?_⟩
      intro u' v' heq
      cases u' with
      | nil => exact absurd ⟨v', heq.symm⟩ hpre
      | cons d u' =>
        rw [List.cons_append, List.cons_append, List.cons.injEq] at heq
        rw [List.length_cons]
        exact Nat.succ_le_succ (hfirst u' v' heq.2)

omit [DecidableEq α] in
theorem replaceAt_append : replaceAt u.length pat.length val (u ++ pat ++ v) = u ++ val ++ v := by
  have hdrop : (u ++ pat ++ v).drop (u.length + pat.length) = v := by
    rw [← List.length_append, List.drop_left]
  rw [replaceAt, hdrop, List.append_assoc u pat v, List.take_left]

theorem replaceTable_nil (text : List α) : replaceTable [] 0 text = text := by
  induction text with
  | nil => rfl
  | cons c text ih =>
    change c :: replaceTable [] 0 text = c :: text
    rw [ih]

/-- Where the values lack an element that the patterns have, replacing an occurrence takes some of it away. -/
theorem count_replaceTable {table : List (List α × List α)} {b : α} (hval : ∀ e ∈ table, b ∉ e.2) (skip : Nat) :
    (replaceTable table skip text).count b ≤ (text.drop skip).count b := by
  induction text generalizing skip with
  | nil => cases skip <;> simp [replaceTable]
  | cons c text ih =>
    cases skip with
    | succ skip => exact ih skip
    | zero =>
      rw [replaceTable, List.drop_zero]
      cases hfind : table.find? fun e => e.1 <+: c :: text with
      | none =>
        have hrest := ih 0
        rw [List.drop_zero] at hrest
        simp only [List.count_cons]
        omega
      | some e =>
        have hrest := ih (e.1.length - 1)
        have hsub := (List.drop_sublist (e.1.length - 1) text).count_le b
        dsimp only
        rw [List.count_append, List.count_eq_zero.mpr (hval e (List.mem_of_find?_eq_some hfind)), List.count_cons]
        omega

theorem count_replaceTable_lt {table : List (List α × List α)} {b : α} (hval : ∀ e ∈ table, b ∉ e.2)
    (hpat : ∀ e ∈ table, e.1.head? = some b) {e : List α × List α} (he : e ∈ table) (hin : e.1 <:+: text) :
    (replaceTable table 0 text).count b < text.count b := by
  induction text with
  | nil =>
    have hhead := hpat e he
    rw [List.infix_nil.mp hin] at hhead
    cases hhead
  | cons c text ih =>
    rw [replaceTable]
    cases hfind : table.find? fun e => e.1 <+: c :: text with
    | none =>
      have hnone := List.find?_eq_none.mp hfind e he
      rcases List.infix_cons_iff.mp hin with hpre | hrest
      · exact absurd (decide_eq_true hpre) hnone
      · have := ih hrest
        simp only [List.count_cons]
        omega
    | some found =>
      have hfound := List.mem_of_find?_eq_some hfind
      have hpre : found.1 <+: c :: text := by simpa using List.find?_some hfind
      have hhead := hpat found hfound
      obtain ⟨d, rest, hd⟩ : ∃ d rest, found.1 = d :: rest := by
        cases hcases : found.1 with
        | nil =>
          rw [hcases] at hhead
          cases hhead
        | cons d rest => exact ⟨d, rest, rfl⟩
      rw [hd, List.head?_cons, Option.some.injEq] at hhead
      rw [hd] at hpre
      obtain ⟨rfl, -⟩ := List.cons_prefix_cons.mp hpre
      subst hhead
      have hrest : (replaceTable table (found.1.length - 1) text).count d ≤ (text.drop (found.1.length - 1)).count d :=
        count_replaceTable hval _
      have hsub := (List.drop_sublist (found.1.length - 1) text).count_le d
      dsimp only
      rw [List.count_append, List.count_eq_zero.mpr (hval found hfound), List.count_cons_self]
      omega

theorem replaceSome_drop (k skip : Nat) (text : List α) :
    replaceSome pat val k skip text = replaceSome pat val k 0 (text.drop skip) := by
  induction text generalizing skip with
  | nil => simp [replaceSome]
  | cons c text ih =>
    cases skip with
    | zero => rfl
    | succ skip =>
      rw [replaceSome, List.drop_succ_cons]
      exact ih skip

theorem replaceSome_zero (text : List α) : replaceSome pat val 0 0 text = text := by
  cases text <;> rfl

theorem replaceTable_one (c : α) (text : List α) :
    replaceTable [(pat, val)] 0 (c :: text) =
      if pat <+: c :: text then val ++ replaceTable [(pat, val)] (pat.length - 1) text
      else c :: replaceTable [(pat, val)] 0 text := by
  rw [replaceTable]
  by_cases hpre : pat <+: c :: text <;> simp [hpre]

theorem replaceSome_occurrences (skip : Nat) (text : List α) :
    replaceSome pat val (occurrences pat skip text) skip text = replaceTable [(pat, val)] skip text := by
  induction text generalizing skip with
  | nil => cases skip <;> simp [replaceSome, replaceTable]
  | cons c text ih =>
    cases skip with
    | succ skip => exact ih skip
    | zero =>
      rw [occurrences, replaceTable_one]
      by_cases hpre : pat <+: c :: text
      · rw [if_pos hpre, if_pos hpre, replaceSome, if_pos hpre, ih]
      · rw [if_neg hpre, if_neg hpre]
        have hrest := ih 0
        cases hcount : occurrences pat 0 text with
        | zero =>
          rw [hcount, replaceSome_zero] at hrest
          rw [replaceSome, ← hrest]
        | succ k =>
          rw [hcount] at hrest
          rw [replaceSome, if_neg hpre, hrest]

/-- The next occurrence that is replaced stands behind a text that stays. -/
theorem replaceSome_split (hne : pat ≠ []) {k skip : Nat} (hk : k < occurrences pat skip text) :
    ∃ s v, replaceSome pat val k skip text = s ++ pat ++ v ∧ replaceSome pat val (k + 1) skip text = s ++ val ++ v ∧
      s ++ val <+: replaceTable [(pat, val)] skip text := by
  induction text generalizing k skip with
  | nil => cases skip <;> simp [occurrences] at hk
  | cons c text ih =>
    cases skip with
    | succ skip => exact ih hk
    | zero =>
      rw [occurrences] at hk
      rw [replaceTable_one]
      by_cases hpre : pat <+: c :: text
      · rw [if_pos hpre] at hk
        rw [if_pos hpre]
        cases k with
        | zero =>
          obtain ⟨v, hv⟩ := hpre
          have hdrop : text.drop (pat.length - 1) = v := by
            have hlength : 0 < pat.length := List.length_pos_iff.mpr hne
            have hall : (c :: text).drop pat.length = v := by rw [← hv, List.drop_left]
            rwa [← Nat.sub_add_cancel hlength, List.drop_succ_cons] at hall
          refine ⟨[], v, ?_, ?_, List.prefix_append _ _⟩
          · rw [replaceSome_zero, List.nil_append, hv]
          · rw [replaceSome, if_pos ⟨v, hv⟩, replaceSome_drop, replaceSome_zero, hdrop, List.nil_append]
        | succ k =>
          obtain ⟨s, v, hthis, hnext, hfinal⟩ := @ih k (pat.length - 1) (by omega)
          refine ⟨val ++ s, v, ?_, ?_, ?_⟩
          · rw [replaceSome, if_pos hpre, hthis]
            simp only [List.append_assoc]
          · rw [replaceSome, if_pos hpre, hnext]
            simp only [List.append_assoc]
          · rw [List.append_assoc]
            exact (List.prefix_append_right_inj val).mpr hfinal
      · rw [if_neg hpre] at hk
        rw [if_neg hpre]
        obtain ⟨s, v, hthis, hnext, hfinal⟩ := ih hk
        refine ⟨c :: s, v, ?_, ?_, ?_⟩
        · cases k with
          | zero =>
            rw [replaceSome_zero] at hthis ⊢
            rw [hthis]
            rfl
          | succ k =>
            rw [replaceSome, if_neg hpre, hthis]
            rfl
        · rw [replaceSome, if_neg hpre, hnext]
          rfl
        · exact List.cons_prefix_cons.mpr ⟨rfl, hfinal⟩

omit [DecidableEq α] in
/-- Two texts neither of which begins with the other differ behind what they share. -/
theorem exists_fork (hval : ¬pat <+: val) (hpat : ¬val <+: pat) :
    ∃ w x y, x ≠ y ∧ w ++ [x] <+: pat ∧ w ++ [y] <+: val := by
  classical
  induction pat generalizing val with
  | nil => exact absurd List.nil_prefix hval
  | cons x pat ih =>
    cases val with
    | nil => exact absurd List.nil_prefix hpat
    | cons y val =>
      by_cases hxy : x = y
      · subst hxy
        obtain ⟨w, x', y', hne, hleft, hright⟩ :=
          ih (fun h => hval (List.cons_prefix_cons.mpr ⟨rfl, h⟩)) fun h => hpat (List.cons_prefix_cons.mpr ⟨rfl, h⟩)
        exact ⟨x :: w, x', y', hne, List.cons_prefix_cons.mpr ⟨rfl, hleft⟩, List.cons_prefix_cons.mpr ⟨rfl, hright⟩⟩
      · exact ⟨[], x, y, hxy, ⟨pat, rfl⟩, ⟨val, rfl⟩⟩

/-- Two texts share what stands before a fork, and go on with its two sides. -/
def Parted (w : List α) (x y : α) (left right : List α) : Prop :=
  ∃ s, s ++ w ++ [x] <+: left ∧ s ++ w ++ [y] <+: right

omit [DecidableEq α] in
theorem Parted.ne {w left right : List α} {x y : α} (hxy : x ≠ y) (h : Parted w x y left right) : left ≠ right := by
  obtain ⟨s, hleft, hright⟩ := h
  rintro rfl
  have heq := (List.prefix_of_prefix_length_le hleft hright (by simp)).eq_of_length (by simp)
  exact hxy (List.singleton_injective (List.append_cancel_left heq))

omit [DecidableEq α] in
/-- Replacing an occurrence before the place where a text shares the fork of its pattern parts the two texts. -/
theorem parted_of_lt {w left s : List α} {x y : α} (hpat : w ++ [x] <+: pat) (hval : w ++ [y] <+: val)
    (hleft : s ++ w <+: left) (hright : s ++ w <+: u ++ pat ++ v) (hlt : u.length < s.length) :
    Parted w x y left (u ++ val ++ v) := by
  have hu : u ++ w ++ [x] <+: u ++ pat ++ v := by
    rw [List.append_assoc, List.append_assoc]
    exact (List.prefix_append_right_inj u).mpr (hpat.trans (List.prefix_append pat v))
  refine ⟨u, (List.prefix_of_prefix_length_le hu hright ?_).trans hleft, ?_⟩
  · simp only [List.length_append, List.length_singleton]
    omega
  · rw [List.append_assoc, List.append_assoc]
    exact (List.prefix_append_right_inj u).mpr (hval.trans (List.prefix_append val v))

omit [DecidableEq α] in
/-- Once parted, two texts stay so however occurrences of the pattern are replaced in one of them. -/
theorem Parted.replace {w left : List α} {x y : α} (hxy : x ≠ y) (hpat : w ++ [x] <+: pat) (hval : w ++ [y] <+: val)
    (h : Parted w x y left (u ++ pat ++ v)) : Parted w x y left (u ++ val ++ v) := by
  obtain ⟨s, hleft, hright⟩ := h
  have hu : u ++ w ++ [x] <+: u ++ pat ++ v := by
    rw [List.append_assoc, List.append_assoc]
    exact (List.prefix_append_right_inj u).mpr (hpat.trans (List.prefix_append pat v))
  rcases Nat.lt_trichotomy u.length s.length with hlt | heq | hgt
  · exact parted_of_lt hpat hval ((List.prefix_append _ _).trans hleft) ((List.prefix_append _ _).trans hright) hlt
  · -- the pattern goes on with the other side of the fork
    have hsame := (List.prefix_of_prefix_length_le hu hright (by simp [heq])).eq_of_length (by simp [heq])
    rw [List.append_assoc, List.append_assoc] at hsame
    have hfork := List.append_cancel_left (List.append_inj_right hsame heq)
    exact absurd (List.singleton_injective hfork) hxy
  · refine ⟨s, hleft, ?_⟩
    have hshared : s ++ w ++ [y] <+: u ++ w := by
      refine List.prefix_of_prefix_length_le hright ((List.prefix_append _ [x]).trans hu) ?_
      simp only [List.length_append, List.length_singleton]
      omega
    have hkept : u ++ w <+: u ++ val ++ v := by
      rw [List.append_assoc]
      exact (List.prefix_append_right_inj u).mpr
        (((List.prefix_append w [y]).trans hval).trans (List.prefix_append val v))
    exact hshared.trans hkept

end

end MasterAI
