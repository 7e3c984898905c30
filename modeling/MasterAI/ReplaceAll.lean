import MasterAI.TextReplace

namespace MasterAI

namespace Shstd

/-- The loop of `replace_all`, which looks for the old value from the start of the string in each round; nothing where
some rounds do not end it. -/
def replaceAll (oldValue newValue : List Char) : Nat → List Char → Option (List Char)
  | 0, _ => none
  | rounds + 1, str =>
    match firstOccurrence oldValue str with
    | some pos => replaceAll oldValue newValue rounds (replaceAt pos oldValue.length newValue str)
    | none => some str

/-- The string with every occurrence of the old value replaced once. -/
def allReplaced (oldValue newValue str : List Char) : List Char := replaceTable [(oldValue, newValue)] 0 str

/-- The old value stands first where the next occurrence of the original string is, in the string with any number of
the first occurrences replaced, and nowhere in the string with all of them replaced. -/
structure Undisturbed (oldValue newValue str : List Char) : Prop where
  next : ∀ k < occurrences oldValue 0 str,
    (firstOccurrence oldValue (replaceSome oldValue newValue k 0 str)).map (fun pos =>
      replaceAt pos oldValue.length newValue (replaceSome oldValue newValue k 0 str)) =
        some (replaceSome oldValue newValue (k + 1) 0 str)
  last : ¬oldValue <:+: allReplaced oldValue newValue str

/-- Two occurrences of the old value that overlap leave the same text whichever of them is replaced. -/
def OverlapsAgree (oldValue newValue : List Char) : Prop :=
  ∀ left shared right, shared ≠ [] → left ++ shared = oldValue → shared ++ right = oldValue →
    left ++ newValue = newValue ++ right

section

variable {oldValue newValue str result : List Char} {rounds k pos : Nat}

/-- The result has no old value left. -/
theorem replaceAll_last (h : replaceAll oldValue newValue rounds str = some result) : ¬oldValue <:+: result := by
  induction rounds generalizing str with
  | zero => cases h
  | succ rounds ih =>
    rw [replaceAll] at h
    split at h
    next => exact ih h
    next hnone =>
      cases h
      exact firstOccurrence_eq_none.mp hnone

theorem replaceAll_some {u v : List Char} (hu : firstOccurrence oldValue (u ++ oldValue ++ v) = some u.length) :
    replaceAll oldValue newValue (rounds + 1) (u ++ oldValue ++ v) =
      replaceAll oldValue newValue rounds (u ++ newValue ++ v) := by
  rw [replaceAll, hu]
  dsimp only
  rw [replaceAt_append]

/-- A round that goes on replaces the occurrence that it finds. -/
theorem replaceAll_round (h : replaceAll oldValue newValue (rounds + 1) str = some result) (hin : oldValue <:+: str) :
    ∃ u v, str = u ++ oldValue ++ v ∧ firstOccurrence oldValue str = some u.length ∧
      (∀ u' v', str = u' ++ oldValue ++ v' → u.length ≤ u'.length) ∧
      replaceAll oldValue newValue rounds (u ++ newValue ++ v) = some result := by
  obtain ⟨pos, hpos⟩ := Option.isSome_iff_exists.mp (firstOccurrence_isSome.mpr hin)
  obtain ⟨u, v, rfl, rfl, hfirst⟩ := firstOccurrence_split hpos
  exact ⟨u, v, rfl, hpos, hfirst, by rwa [replaceAll_some hpos] at h⟩

/-- Undisturbed rounds replace one occurrence of the original string after the other. -/
theorem replaceAll_undisturbed (h : Undisturbed oldValue newValue str) {left : Nat}
    (hleft : k + left = occurrences oldValue 0 str) :
    replaceAll oldValue newValue (left + 1) (replaceSome oldValue newValue k 0 str) =
      some (allReplaced oldValue newValue str) := by
  induction left generalizing k with
  | zero =>
    rw [Nat.add_zero] at hleft
    rw [hleft, replaceSome_occurrences, replaceAll]
    change (match firstOccurrence oldValue (allReplaced oldValue newValue str) with
      | some pos => _
      | none => some (allReplaced oldValue newValue str)) = _
    rw [firstOccurrence_eq_none.mpr h.last]
  | succ left ih =>
    obtain ⟨pos, hpos, hnext⟩ := Option.map_eq_some_iff.mp (h.next k (by omega))
    rw [replaceAll, hpos]
    dsimp only
    rw [hnext]
    exact ih (by omega)

/-- A new value that has the old one in it keeps the loop going. -/
theorem replaceAll_endless (hnew : oldValue <:+: newValue) (hstr : oldValue <:+: str) :
    replaceAll oldValue newValue rounds str = none := by
  induction rounds generalizing str with
  | zero => rfl
  | succ rounds ih =>
    obtain ⟨pos, hpos⟩ := Option.isSome_iff_exists.mp (firstOccurrence_isSome.mpr hstr)
    obtain ⟨u, v, rfl, rfl, -⟩ := firstOccurrence_split hpos
    rw [replaceAll_some hpos]
    exact ih (hnew.trans ⟨u, v, rfl⟩)

/-- Texts that a fork parts never become one. -/
theorem replaceAll_parted {w : List Char} {x y : Char} (hxy : x ≠ y) (hold : w ++ [x] <+: oldValue)
    (hnew : w ++ [y] <+: newValue) (hparted : Parted w x y result str) :
    replaceAll oldValue newValue rounds str ≠ some result := by
  induction rounds generalizing str with
  | zero => exact nofun
  | succ rounds ih =>
    intro h
    by_cases hin : oldValue <:+: str
    · obtain ⟨u, v, rfl, -, -, hrest⟩ := replaceAll_round h hin
      exact ih (hparted.replace hxy hold hnew) hrest
    · rw [replaceAll, firstOccurrence_eq_none.mpr hin, Option.some.injEq] at h
      exact hparted.ne hxy h.symm

/-- An occurrence found too early overlaps the next one of the original string. -/
theorem overlap_of_lt {s u v v' : List Char} (heq : s ++ oldValue ++ v' = u ++ oldValue ++ v)
    (hlt : u.length < s.length) (hend : s.length < u.length + oldValue.length) :
    ∃ left shared right, shared ≠ [] ∧ left ++ shared = oldValue ∧ shared ++ right = oldValue ∧ s = u ++ left ∧
      v = right ++ v' := by
  obtain ⟨left, rfl⟩ : u <+: s := by
    refine List.prefix_of_prefix_length_le (List.prefix_append u (oldValue ++ v)) ?_ hlt.le
    rw [← List.append_assoc, ← heq, List.append_assoc]
    exact List.prefix_append s _
  have hshift : left ++ (oldValue ++ v') = oldValue ++ v := by
    simpa only [List.append_assoc, List.append_cancel_left_eq] using heq
  rw [List.length_append] at hend
  obtain ⟨shared, hshared⟩ : left <+: oldValue :=
    List.prefix_of_prefix_length_le ⟨_, hshift⟩ (List.prefix_append oldValue v) (by omega)
  have hrest : oldValue ++ v' = shared ++ v := by
    rw [← hshared, List.append_assoc left shared v] at hshift
    rw [← List.append_cancel_left hshift, hshared]
  have hlength := congrArg List.length hshared
  rw [List.length_append] at hlength
  obtain ⟨right, hright⟩ : shared <+: oldValue :=
    List.prefix_of_prefix_length_le ⟨_, hrest.symm⟩ (List.prefix_append oldValue v') (by omega)
  refine ⟨left, shared, right, ?_, hshared, hright, rfl, ?_⟩
  · rintro rfl
    rw [List.length_nil] at hlength
    omega
  · rw [← hright, List.append_assoc] at hrest
    exact (List.append_cancel_left hrest).symm

/-- Where the loop ends with all occurrences replaced, each round replaces the next one of the original string. -/
theorem replaceAll_next (hold : oldValue ≠ []) (hkind : ¬newValue <+: oldValue ∨ OverlapsAgree oldValue newValue)
    (hk : k < occurrences oldValue 0 str)
    (h : replaceAll oldValue newValue (rounds + 1) (replaceSome oldValue newValue k 0 str) =
      some (allReplaced oldValue newValue str)) :
    (firstOccurrence oldValue (replaceSome oldValue newValue k 0 str)).map (fun pos =>
      replaceAt pos oldValue.length newValue (replaceSome oldValue newValue k 0 str)) =
        some (replaceSome oldValue newValue (k + 1) 0 str) ∧
      replaceAll oldValue newValue rounds (replaceSome oldValue newValue (k + 1) 0 str) =
        some (allReplaced oldValue newValue str) := by
  have hlast := replaceAll_last h
  obtain ⟨s, v', hthis, hnext, hfinal⟩ := @replaceSome_split _ _ _ newValue _ hold _ _ hk
  obtain ⟨u, v, heq, hfirst, hmin, hrest⟩ := replaceAll_round h ⟨s, v', hthis.symm⟩
  suffices hsame : u ++ newValue ++ v = replaceSome oldValue newValue (k + 1) 0 str by
    refine ⟨?_, hsame ▸ hrest⟩
    rw [hfirst, Option.map_some, heq, replaceAt_append, hsame]
  have hboth : s ++ oldValue ++ v' = u ++ oldValue ++ v := hthis.symm.trans heq
  rcases (hmin s v' hthis).lt_or_eq with hlt | hlength
  · have hend : s.length < u.length + oldValue.length := by
      by_contra hinside
      have hprefix : u ++ oldValue <+: s := by
        refine List.prefix_of_prefix_length_le (List.prefix_append _ v) ?_ (by rw [List.length_append]; omega)
        rw [← hboth, List.append_assoc]
        exact List.prefix_append s _
      obtain ⟨rest, hrest⟩ := hprefix.trans ((List.prefix_append s newValue).trans hfinal)
      exact hlast ⟨u, rest, hrest⟩
    obtain ⟨left, shared, right, hshared, hleft, hright, rfl, rfl⟩ := overlap_of_lt hboth hlt hend
    rcases hkind with hnew | hagree
    · -- the loop has left the text that the original occurrences lead to
      have holdNew : ¬oldValue <+: newValue := by
        rintro ⟨rest, rfl⟩
        obtain ⟨tail, htail⟩ := hfinal
        refine hlast ⟨u ++ left, rest ++ tail, ?_⟩
        rw [← List.append_assoc, List.append_assoc (u ++ left)]
        exact htail
      obtain ⟨w, x, y, hxy, hpat, hval⟩ := exists_fork holdNew hnew
      have hstays : u ++ left ++ w <+: allReplaced oldValue newValue str :=
        ((List.prefix_append_right_inj _).mpr ((List.prefix_append w [y]).trans hval)).trans hfinal
      have hshares : u ++ left ++ w <+: u ++ oldValue ++ (right ++ v') := by
        rw [← hboth, List.append_assoc (u ++ left) oldValue]
        exact (List.prefix_append_right_inj _).mpr
          (((List.prefix_append w [x]).trans hpat).trans (List.prefix_append oldValue v'))
      exact absurd hrest (replaceAll_parted hxy hpat hval (parted_of_lt hpat hval hstays hshares hlt))
    · rw [hnext, List.append_assoc u left, hagree left shared right hshared hleft hright]
      simp only [List.append_assoc]
  · obtain ⟨hhead, hv⟩ := List.append_inj hboth (by rw [List.length_append, List.length_append, hlength])
    rw [hnext, List.append_inj_left hhead hlength.symm, hv]

/-- The loop ends with all occurrences replaced where no round is disturbed, and only without an old value that is
left. Where the old value does not begin with the new one, or its overlaps agree, it does so exactly then. -/
theorem replaceAll_allReplaced_iff (oldValue newValue str : List Char) (hold : oldValue ≠ []) :
    (Undisturbed oldValue newValue str →
      ∃ rounds, replaceAll oldValue newValue rounds str = some (allReplaced oldValue newValue str)) ∧
    ((∃ rounds, replaceAll oldValue newValue rounds str = some (allReplaced oldValue newValue str)) →
      ¬oldValue <:+: allReplaced oldValue newValue str ∧
        (¬newValue <+: oldValue ∨ OverlapsAgree oldValue newValue → Undisturbed oldValue newValue str)) := by
  constructor
  · intro h
    have hrun := replaceAll_undisturbed h (Nat.zero_add _)
    rw [replaceSome_zero] at hrun
    exact ⟨_, hrun⟩
  · rintro ⟨rounds, hrounds⟩
    refine ⟨replaceAll_last hrounds, fun hkind => ⟨?_, replaceAll_last hrounds⟩⟩
    have hreach : ∀ k ≤ occurrences oldValue 0 str, ∃ rounds,
        replaceAll oldValue newValue rounds (replaceSome oldValue newValue k 0 str) =
          some (allReplaced oldValue newValue str) := by
      intro k
      induction k with
      | zero => exact fun _ => ⟨rounds, by rwa [replaceSome_zero]⟩
      | succ k ih =>
        intro hk
        obtain ⟨rounds, hrounds⟩ := ih (by omega)
        cases rounds with
        | zero => cases hrounds
        | succ rounds => exact ⟨rounds, (replaceAll_next hold hkind hk hrounds).2⟩
    intro k hk
    obtain ⟨rounds, hrounds⟩ := hreach k hk.le
    cases rounds with
    | zero => cases hrounds
    | succ rounds => exact (replaceAll_next hold hkind hk hrounds).1

/-- A text without a disturbed round. -/
theorem replaceAll_twoSpaces :
    ∃ rounds, replaceAll [' ', ' '] [' '] rounds ['a', ' ', ' ', 'b'] = some ['a', ' ', 'b'] := by
  refine (replaceAll_allReplaced_iff [' ', ' '] [' '] ['a', ' ', ' ', 'b'] (by decide)).1 ⟨?_, by decide⟩
  intro k hk
  have hzero : k = 0 := Nat.lt_one_iff.mp hk
  subst hzero
  decide

/-- In `aabb` a second `ab` stands where the first was taken away, and an `a` that becomes two is found again. -/
theorem replaceAll_not_allReplaced :
    ¬(∀ oldValue newValue str, oldValue ≠ [] →
      ∃ rounds, replaceAll oldValue newValue rounds str = some (allReplaced oldValue newValue str)) ∧
    replaceAll ['a', 'b'] [] 3 ['a', 'a', 'b', 'b'] = some [] ∧
    allReplaced ['a', 'b'] [] ['a', 'a', 'b', 'b'] = ['a', 'b'] ∧
    ∀ rounds, replaceAll ['a'] ['a', 'a'] rounds ['a'] = none := by
  refine ⟨fun hall => ?_, by decide, by decide, fun rounds => replaceAll_endless (by decide) (by decide)⟩
  obtain ⟨rounds, hrounds⟩ := hall ['a', 'b'] [] ['a', 'a', 'b', 'b'] (by decide)
  exact replaceAll_last hrounds (by decide)

end

end Shstd

end MasterAI
