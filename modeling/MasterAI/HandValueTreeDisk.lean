import MasterAI.FallingTuples
import MasterAI.HandValueTree
import Mathlib.Algebra.BigOperators.Group.List.Basic
import Mathlib.Data.Nat.Cast.Basic
import Mathlib.Tactic.Ring

namespace MasterAI

/-- The `int` that a file holds at an offset. -/
def intAt (file : List UInt8) (pos : Nat) : Int := Int.bmod (littleEndian ((file.drop pos).take 4)) 4294967296

section

variable {r : Reader} {pos k n : Nat} {t : List Nat}

theorem ReaderAt.readIntOrDie (h : ReaderAt r pos) (hfit : pos + 4 ≤ r.file.length) :
    ∃ s, r.readIntOrDie = some (intAt r.file pos, s) ∧ ReaderAt s (pos + 4) ∧ s.file = r.file := by
  obtain ⟨s, hs, hat, hfile⟩ := h.read (show pos + ReadKind.int.width ≤ r.file.length from hfit)
  refine ⟨s, ?_, hat, hfile⟩
  rw [Reader.readIntOrDie, Reader.readInt, Reader.readTyped, hs]
  rfl

namespace ValueTree

/-- The tree holds the numbers of a file from a position on, one for each falling tuple of its depth. -/
def Holds (k n : Nat) (tree : ValueTree k) (file : List UInt8) (pos : Nat) : Prop :=
  ∀ t, tree.entry k t = if t.length = k ∧ FallingBelow n t then some (intAt file (pos + 4 * tupleNumber t)) else none

theorem entry_cons {entries : List (Option (ValueTree k))} {c : Nat} :
    entry (k + 1) entries (c :: t) = ((entries[c]?).getD none).bind fun sub => sub.entry k t := rfl

/-- One loop reads the trees of its indices one after the other. -/
theorem readEntries_spec
    (ih : ∀ {n pos : Nat} {r : Reader}, ReaderAt r pos → pos + 4 * n.choose k ≤ r.file.length →
      ∃ tree s, readLoops k n r = some (tree, s) ∧ ReaderAt s (pos + 4 * n.choose k) ∧ s.file = r.file ∧
        Holds k n tree r.file pos) (left : Nat) :
    ∀ {i pos : Nat} {r : Reader}, ReaderAt r (pos + 4 * i.choose (k + 1)) →
      pos + 4 * (i + left).choose (k + 1) ≤ r.file.length →
      ∃ entries s, readEntries (readLoops k) i left r = some (entries, s) ∧
        ReaderAt s (pos + 4 * (i + left).choose (k + 1)) ∧ s.file = r.file ∧ entries.length = left ∧
        ∀ j < left, ∃ tree, entries[j]? = some (some tree) ∧
          Holds k (i + j) tree r.file (pos + 4 * (i + j).choose (k + 1)) := by
  induction left with
  | zero =>
    intro i pos r hat _
    exact ⟨[], r, rfl, hat, rfl, rfl, by omega⟩
  | succ left ihLeft =>
    intro i pos r hat hfit
    have hnext : (i + 1).choose (k + 1) = i.choose k + i.choose (k + 1) := Nat.choose_succ_succ i k
    have hmono : (i + 1).choose (k + 1) ≤ (i + (left + 1)).choose (k + 1) := Nat.choose_le_choose _ (by omega)
    have hroom : pos + 4 * i.choose (k + 1) + 4 * i.choose k ≤ r.file.length := by omega
    obtain ⟨tree, r', hr', hat', hfile', hholds⟩ := ih hat hroom
    have hplace : pos + 4 * i.choose (k + 1) + 4 * i.choose k = pos + 4 * (i + 1).choose (k + 1) := by omega
    have hshift : i + 1 + left = i + (left + 1) := by omega
    rw [hplace] at hat'
    obtain ⟨entries, s, hs, hats, hfiles, hlength, hentries⟩ := ihLeft hat' (by rw [hshift, hfile']; exact hfit)
    rw [hshift] at hats
    refine ⟨some tree :: entries, s, ?_, hats, hfiles.trans hfile', by rw [List.length_cons, hlength], ?_⟩
    · rw [readEntries, hr', Option.bind_some]
      dsimp only
      rw [hs, Option.map_some]
    · intro j hj
      cases j with
      | zero => exact ⟨tree, rfl, hholds⟩
      | succ j =>
        obtain ⟨sub, hsub, hsubHolds⟩ := hentries j (by omega)
        rw [hfile', show i + 1 + j = i + (j + 1) by omega] at hsubHolds
        exact ⟨sub, hsub, hsubHolds⟩

/-- The trees of the indices of a loop make up a tree of one more index. -/
theorem holds_of_entries {entries all : List (Option (ValueTree k))} {file : List UInt8}
    (hall : all = List.replicate (min k n) none ++ entries) (hlength : entries.length = n - k)
    (hentries : ∀ j < n - k, ∃ tree, entries[j]? = some (some tree) ∧
      Holds k (k + j) tree file (pos + 4 * (k + j).choose (k + 1))) :
    Holds (k + 1) n all file pos := by
  intro t
  cases t with
  | nil => rfl
  | cons c t =>
    rw [entry_cons, hall]
    by_cases hc : k ≤ c ∧ c < n
    · obtain ⟨tree, htree, hholds⟩ := hentries (c - k) (by omega)
      have hplace : c - min k n = c - k := by omega
      rw [List.getElem?_append_right (by rw [List.length_replicate]; omega), List.length_replicate, hplace, htree]
      rw [show k + (c - k) = c by omega] at hholds
      refine (hholds t).trans ?_
      by_cases ht : t.length = k ∧ FallingBelow c t
      · obtain ⟨hk, hfalls⟩ := ht
        rw [if_pos ⟨hk, hfalls⟩, if_pos ⟨by rw [List.length_cons, hk], fallingBelow_cons.mpr ⟨hc.2, hfalls⟩⟩, tupleNumber, hk]
        congr 2
        omega
      · rw [if_neg ht, if_neg]
        rintro ⟨hk, hfalls⟩
        exact ht ⟨Nat.succ.inj hk, (fallingBelow_cons.mp hfalls).2⟩
    · have hnone : (List.replicate (min k n) none ++ entries)[c]?.getD none = none := by
        rcases Nat.lt_or_ge c (min k n) with hlt | hge
        · rw [List.getElem?_append_left (by rw [List.length_replicate]; exact hlt), List.getElem?_replicate, if_pos hlt]
          rfl
        · rw [List.getElem?_eq_none (by rw [List.length_append, List.length_replicate]; omega)]
          rfl
      rw [hnone, Option.bind_none, if_neg]
      rintro ⟨hk, hfalls⟩
      obtain ⟨hlt, htail⟩ := fallingBelow_cons.mp hfalls
      have := htail.length_le
      rw [List.length_cons] at hk
      omega

/-- The loops read one number after the other, in the order of the falling tuples. -/
theorem readLoops_spec (k : Nat) :
    ∀ {n pos : Nat} {r : Reader}, ReaderAt r pos → pos + 4 * n.choose k ≤ r.file.length →
      ∃ tree s, readLoops k n r = some (tree, s) ∧ ReaderAt s (pos + 4 * n.choose k) ∧ s.file = r.file ∧
        Holds k n tree r.file pos := by
  induction k with
  | zero =>
    intro n pos r hat hfit
    rw [Nat.choose_zero_right] at hfit ⊢
    obtain ⟨s, hs, hats, hfile⟩ := hat.readIntOrDie hfit
    refine ⟨_, s, hs, hats, hfile, ?_⟩
    intro t
    cases t with
    | nil =>
      rw [if_pos ⟨rfl, fallingBelow_nil⟩]
      rfl
    | cons c t =>
      rw [if_neg (by simp)]
      rfl
  | succ k ih =>
    intro n pos r hat hfit
    have hfirst : k.choose (k + 1) = 0 := Nat.choose_eq_zero_of_lt (by omega)
    have hlast : (k + (n - k)).choose (k + 1) = n.choose (k + 1) := by
      rcases Nat.lt_or_ge n k with hlt | hge
      · rw [Nat.choose_eq_zero_of_lt (by omega), Nat.choose_eq_zero_of_lt (by omega)]
      · rw [Nat.add_sub_cancel' hge]
    obtain ⟨entries, s, hs, hats, hfile, hlength, hentries⟩ :=
      readEntries_spec ih (n - k) (show ReaderAt r (pos + 4 * k.choose (k + 1)) by rwa [hfirst]) (by rwa [hlast])
    rw [hlast] at hats
    refine ⟨List.replicate (min k n) none ++ entries, s, ?_, hats, hfile, holds_of_entries rfl hlength hentries⟩
    rw [readLoops, hs]
    rfl

end ValueTree

/-- A file with a number for each hand of some cards can be read into a tree of them. -/
theorem StaticFiles.readTree_spec {files : StaticFiles} {g : SGame} {file : List UInt8} (memory : Nat → UInt8)
    (hfile : files.contents (files.handValueFile g k) = some file)
    (hfull : 4 * g.numCardsInDeck.choose k ≤ file.length) :
    ∃ tree, files.readTree g k memory = some tree ∧ ValueTree.Holds k g.numCardsInDeck tree file 0 := by
  obtain ⟨r, hr, hat, hrfile⟩ := Reader.opened_at file memory
  rw [← hrfile] at hfull
  obtain ⟨tree, s, hs, -, -, hholds⟩ := ValueTree.readLoops_spec k hat (by rwa [Nat.zero_add])
  rw [hrfile] at hholds
  refine ⟨tree, ?_, hholds⟩
  rw [readTree, openReader, hfile, Option.bind_some, hr, Option.bind_some, hs]
  rfl

namespace HandValueTree

theorem insertionSort_falling {cards : List Nat} (hfalls : FallingBelow n t) (hperm : cards.Perm t) :
    cards.insertionSort (· ≥ ·) = t :=
  ((cards.perm_insertionSort (· ≥ ·)).trans hperm).eq_of_pairwise' (cards.pairwise_insertionSort (· ≥ ·))
    (hfalls.falls.imp Nat.le_of_lt)

theorem insertionSort_rising {cards : List Nat} (hfalls : FallingBelow n t) (hperm : cards.Perm t) :
    cards.insertionSort (· ≤ ·) = t.reverse :=
  ((cards.perm_insertionSort (· ≤ ·)).trans (hperm.trans t.reverse_perm.symm)).eq_of_pairwise'
    (cards.pairwise_insertionSort (· ≤ ·)) (List.pairwise_reverse.mpr (hfalls.falls.imp Nat.le_of_lt))

/-- The recursive sum counts the falling tuples that start below a card. -/
theorem getNumCombinations_eq (c more : Nat) : getNumCombinations ((c : Int) - 1) more = (c.choose (more + 1) : Nat) := by
  induction more generalizing c with
  | zero =>
    rw [getNumCombinations, Nat.choose_one_right]
    omega
  | succ more ih =>
    cases c with
    | zero => rfl
    | succ c =>
      have hbound : (((c + 1 : Nat) : Int) - 1).toNat = c := by omega
      have hterm : ∀ c1 ∈ List.range c, getNumCombinations (c1 : Int) more = ((c1 + 1).choose (more + 1) : Nat) := by
        intro c1 _
        rw [← ih (c1 + 1)]
        congr 1
        omega
      have hcast := map_list_sum (Nat.castAddMonoidHom Int) ((List.range c).map fun c1 => (c1 + 1).choose (more + 1))
      rw [List.map_map, sum_choose_range] at hcast
      rw [getNumCombinations, hbound, List.map_congr_left hterm]
      exact hcast.symm

/-- The index that is computed from the binomials is the number of the tuple. -/
theorem diskLoc_eq {cards : List Nat} (ht : t.length = 7) (hfalls : FallingBelow n t) (hperm : cards.Perm t) :
    diskLoc cards = (4 * tupleNumber t : Nat) := by
  rw [diskLoc, insertionSort_rising hfalls hperm]
  match t, ht with
  | [c6, c5, c4, c3, c2, c1, c0], _ =>
    have hindex : diskIndex [c6, c5, c4, c3, c2, c1, c0].reverse = (tupleNumber [c6, c5, c4, c3, c2, c1, c0] : Nat) := by
      simp only [diskIndex, List.reverse_cons, List.reverse_nil, List.nil_append, List.cons_append, List.getD_cons_zero,
        List.getD_cons_succ, getNumCombinations_eq, tupleNumber, List.length_cons, List.length_nil, Nat.zero_add,
        Nat.choose_one_right]
      push_cast
      split <;> omega
    rw [hindex]
    push_cast
    ring

/-- The offset that `DiskRead` computes for seven cards is the one at which the loops of `ReadSeven` read their
value, and the number there is the one in the tree. -/
theorem diskRead_eq_val {files : StaticFiles} {g : SGame} {s : HandValueTree} {file : List UInt8} {cards : List Nat}
    (memory memory' : Nat → UInt8) (hsize : numHandCards g = 7)
    (hfile : files.contents (files.handValueFile g 7) = some file) (hfull : 4 * g.numCardsInDeck.choose 7 ≤ file.length)
    (htree : s.tree7 = files.readSeven g memory) (hcount : s.numCards = 7) (ht : t.length = 7)
    (hfalls : FallingBelow g.numCardsInDeck t) (hperm : cards.Perm t) :
    ∃ i, (fallingTuples 7 g.numCardsInDeck)[i]? = some t ∧ diskLoc cards = (4 * i : Nat) ∧
      s.val cards = some (intAt file (4 * i)) ∧ diskRead files g memory' cards = some (intAt file (4 * i)) := by
  have hplace := hfalls.getElem?
  have hnumber := hfalls.tupleNumber_lt
  have hlength := hperm.length_eq
  rw [ht] at hplace hnumber hlength
  refine ⟨tupleNumber t, hplace, diskLoc_eq ht hfalls hperm, ?_, ?_⟩
  · obtain ⟨tree, hread, hholds⟩ := files.readTree_spec memory hfile hfull
    have hseven : s.tree7 = some tree := htree.trans hread
    have hsorted : sortedCards cards 7 = some t := by
      rw [sortedCards, if_pos hlength.ge, List.take_of_length_le hlength.le, insertionSort_falling hfalls hperm]
    rw [val, if_pos (by omega), show s.numCards.toNat = 7 by omega, hsorted, Option.bind_some]
    unfold treeEntry
    rw [ht]
    refine (congrArg (Option.bind · fun tree => tree.entry 7 t) hseven).trans ?_
    refine (hholds t).trans ?_
    rw [if_pos ⟨ht, hfalls⟩, Nat.zero_add]
  · obtain ⟨r, hr, hat, hrfile⟩ := Reader.opened_at file memory'
    rw [← hrfile] at hfull
    obtain ⟨r', hr', hat', hfile'⟩ := hat.seekTo (show 4 * tupleNumber t ≤ r.file.length by omega) (.inl (by omega))
    obtain ⟨r'', hr'', -, -⟩ := hat'.readIntOrDie (by rw [hfile']; omega)
    rw [hfile', hrfile] at hr''
    have hloc : (diskLoc (cards.take 7)).toNat = 4 * tupleNumber t := by
      rw [List.take_of_length_le hlength.le, diskLoc_eq ht hfalls hperm]
      exact Int.toNat_natCast _
    simp only [diskRead, hsize, StaticFiles.openReader, hfile, hr, Option.bind_some, if_pos, hloc, hr', hr'', Option.map_some]

theorem four_ranks_pos : 0 < 4 := Nat.zero_lt_succ 3

/-- Eight cards of four ranks and two suits, with a file that has room for the values of any hands of them. -/
def eightCards : SGame := ⟨4, 2, 2, [3, 1, 1], four_ranks_pos, Nat.zero_lt_two⟩

def eightValues : List UInt8 := (List.range 280).map fun i => UInt8.ofNat i

def eightFiles : StaticFiles := ⟨"static".toList, "mini".toList, fun _ => some eightValues⟩

def eightTree : HandValueTree :=
  ⟨0, 7, none, none, none, none, none, none, eightFiles.readSeven eightCards fun _ => 0⟩

theorem diskRead_eq_val_eightCards :
    ∃ i, (fallingTuples 7 8)[i]? = some [7, 6, 5, 4, 2, 1, 0] ∧ diskLoc [2, 5, 0, 7, 6, 1, 4] = (4 * i : Nat) ∧
      eightTree.val [2, 5, 0, 7, 6, 1, 4] = some (intAt eightValues (4 * i)) ∧
      diskRead eightFiles eightCards (fun _ => 0) [2, 5, 0, 7, 6, 1, 4] = some (intAt eightValues (4 * i)) := by
  have hfull : 4 * eightCards.numCardsInDeck.choose 7 ≤ eightValues.length := by
    rw [eightValues, List.length_map, List.length_range]
    decide
  have hfalls : FallingBelow eightCards.numCardsInDeck [7, 6, 5, 4, 2, 1, 0] := by decide
  have htree : eightTree.tree7 = eightFiles.readSeven eightCards fun _ => 0 := by rw [eightTree]
  have hcount : eightTree.numCards = 7 := rfl
  have hperm : [2, 5, 0, 7, 6, 1, 4].Perm [7, 6, 5, 4, 2, 1, 0] := by decide
  exact diskRead_eq_val (fun _ => 0) (fun _ => 0) (by decide) rfl hfull htree hcount rfl hfalls hperm

end HandValueTree

end

end MasterAI
