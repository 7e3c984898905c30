import MasterAI.StateText

namespace MasterAI

/-- Whenever the piece succeeds, it writes this text. -/
def Prints (piece : Printer) (text : List Char) : Prop := ∀ maxLen out, piece maxLen = some out → out = text

theorem printAll_append (xs ys : List Printer) (maxLen : Int) :
    printAll (xs ++ ys) maxLen = (printAll xs maxLen).bind fun text =>
      (printAll ys (maxLen - text.length)).map (text ++ ·) := by
  induction xs generalizing maxLen with
  | nil => simp [printAll]
  | cons x xs ih =>
    simp only [List.cons_append, printAll, ih, Option.bind_eq_bind, Option.pure_def, Option.bind_assoc]
    congr 1
    funext text
    congr 1
    funext rest
    simp only [Option.bind_some, List.length_append, Nat.cast_add, sub_sub]
    cases printAll ys (maxLen - (text.length + rest.length)) <;> simp

theorem Prints.append {xs ys : List Printer} {a b : List Char} (hx : Prints (printAll xs) a)
    (hy : Prints (printAll ys) b) : Prints (printAll (xs ++ ys)) (a ++ b) := by
  intro maxLen out h
  rw [printAll_append] at h
  obtain ⟨text, ht, h⟩ := Option.bind_eq_some_iff.mp h
  obtain ⟨rest, hr, rfl⟩ := Option.map_eq_some_iff.mp h
  rw [hx _ _ ht, hy _ _ hr]

theorem prints_nil : Prints (printAll []) [] := by
  intro maxLen out h
  exact (Option.some.inj h).symm

theorem Prints.one {piece : Printer} {text : List Char} (h : Prints piece text) :
    Prints (printAll [piece]) text := by
  intro maxLen out hout
  simp only [printAll, Option.bind_eq_bind, Option.bind_eq_some_iff, Option.pure_def,
    Option.some.injEq] at hout
  obtain ⟨a, ha, _, rfl, rfl⟩ := hout
  rw [List.append_nil, h _ _ ha]

theorem prints_flatMap {α : Type} {l : List α} {pieces : α → List Printer} {text : α → List Char}
    (h : ∀ i ∈ l, Prints (printAll (pieces i)) (text i)) :
    Prints (printAll (l.flatMap pieces)) (l.flatMap text) := by
  induction l with
  | nil => exact prints_nil
  | cons x l ih => exact (h x (by simp)).append (ih fun i hi => h i (by simp [hi]))

theorem prints_char (c : Char) : Prints (printChar c) [c] := by
  intro maxLen out h
  unfold printChar at h
  split at h
  · simp at h
  · exact (Option.some.inj h).symm

theorem prints_terminate : Prints terminate [] := by
  intro maxLen out h
  unfold terminate at h
  split at h
  · simp at h
  · exact (Option.some.inj h).symm

theorem prints_text (text : List Char) : Prints (printText text) text :=
  fun _ _ h => (Option.some.inj h).symm

/-- The texts of the places of `l`, with a separator in front of every place but the first. -/
def separatedText (l : List Nat) (separator : Char) (text : Nat → List Char) : List Char :=
  l.flatMap fun i => (if i ≠ 0 then [separator] else []) ++ text i

theorem prints_separated {n : Nat} {separator : Char} {pieces : Nat → List Printer}
    {text : Nat → List Char} (h : ∀ i < n, Prints (printAll (pieces i)) (text i)) :
    Prints (printAll (separated n separator pieces ++ [terminate]))
      (separatedText (List.range n) separator text) := by
  have hall : Prints (printAll (separated n separator pieces))
      (separatedText (List.range n) separator text) := by
    apply prints_flatMap
    intro i hi
    apply Prints.append _ (h i (List.mem_range.mp hi))
    split
    · exact (prints_char separator).one
    · exact prints_nil
  simpa using hall.append prints_terminate.one

def cardText (card : Nat) : List Char :=
  [rankChars.getD (rankOfCard card) '?', suitChars.getD (suitOfCard card) '?']

theorem prints_card (card : Nat) : Prints (printCard card) (cardText card) := by
  intro maxLen out h
  unfold printCard at h
  split at h
  · simp at h
  · simp only [Option.bind_eq_bind, Option.bind_eq_some_iff, Option.pure_def, Option.some.injEq] at h
    obtain ⟨rank, hr, suit, hs, rfl⟩ := h
    simp [cardText, List.getD, hr, hs]

def cardsText (numCards : Nat) (cards : Nat → Nat) : List Char :=
  ((List.range numCards).map cards).flatMap cardText

theorem prints_cards (numCards : Nat) (cards : Nat → Nat) :
    Prints (printCards numCards cards) (cardsText numCards cards) := by
  unfold printCards cardsText
  rw [List.flatMap_map, ← List.flatMap_singleton' ((List.range numCards).map _), List.flatMap_map]
  exact prints_flatMap fun i _ => (prints_card (cards i)).one

theorem prints_action (g : Game) (a : Action) : Prints (printAction g a) (actionText g a) := by
  intro maxLen out h
  unfold printAction at h
  split at h
  · simp at h
  · split at h
    · simp at h
    · exact (Option.some.inj h).symm

def roundText (g : Game) (s : State) (i : Nat) : List Char := (s.action i).flatMap fun e => actionText g e.1

def holeText (g : Game) (s : State) (player p : Nat) : List Char :=
  if cardsShown g s player p then cardsText g.numHoleCards (s.holeCards p) else []

def boardText (g : Game) (s : State) (i : Nat) : List Char :=
  cardsText (g.numBoardCards i) fun k => s.boardCards (bcStart g i + k)

def matchStateText (g : Game) (m : MatchState) : List Char :=
  matchStateTag ++ (printNat m.viewingPlayer ++ (':' :: (printNat m.state.handId.toNat ++ (':' ::
    (separatedText (List.range (m.state.round + 1)) '/' (roundText g m.state) ++ (':' ::
      (separatedText (List.range g.numPlayers) '|' (holeText g m.state m.viewingPlayer) ++
        separatedText (List.range (m.state.round + 1)) '/' (boardText g m.state))))))))

theorem prints_betting (g : Game) (s : State) :
    Prints (printBetting g s) (separatedText (List.range (s.round + 1)) '/' (roundText g s)) := by
  apply prints_separated
  intro i _
  rw [← List.flatMap_singleton' ((s.action i).map _), List.flatMap_map]
  exact prints_flatMap fun e _ => (prints_action g e.1).one

theorem prints_holeCards (g : Game) (s : State) (player : Nat) :
    Prints (printPlayerHoleCards g s player)
      (separatedText (List.range g.numPlayers) '|' (holeText g s player)) := by
  apply prints_separated
  intro p _
  unfold holeText
  split
  · exact (prints_cards _ _).one
  · exact prints_nil

theorem prints_boardCards (g : Game) (s : State) :
    Prints (printBoardCards g s) (separatedText (List.range (s.round + 1)) '/' (boardText g s)) :=
  prints_separated fun _ _ => (prints_cards _ _).one

theorem prints_matchState (g : Game) (m : MatchState) :
    Prints (printMatchState g m) (matchStateText g m) := by
  have hcommon : Prints (printStateCommon g m.state)
      ((':' :: printNat m.state.handId.toNat ++ [':']) ++
        (separatedText (List.range (m.state.round + 1)) '/' (roundText g m.state) ++ [':'])) :=
    (prints_text _).one.append ((prints_betting g m.state).one.append (prints_char ':').one)
  have hall := (prints_text (matchStateTag ++ printNat m.viewingPlayer)).one.append (hcommon.one.append
    ((prints_holeCards g m.state m.viewingPlayer).one.append
      ((prints_boardCards g m.state).one.append prints_terminate.one)))
  simpa [matchStateText, printMatchState] using hall

end MasterAI
