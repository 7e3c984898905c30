import MasterAI.ActionInfoText
import MasterAI.DealCards
import MasterAI.GameFile
import Mathlib.Data.List.TakeWhile

namespace MasterAI

/-- A line that `fgets` returns whole. -/
structure WholeLine (line : List Char) : Prop where
  ended : ∃ body, line = body ++ ['\n'] ∧ '\n' ∉ body
  short : line.length < maxLineLen

theorem fgets_wholeLine {line : List Char} (h : WholeLine line) (rest : List Char) :
    fgets (line ++ rest) = some (line, rest) := by
  obtain ⟨⟨body, rfl, hbody⟩, hshort⟩ := h
  have hlength : body.length + 1 ≤ maxLineLen - 1 := by
    simp only [List.length_append, List.length_cons, List.length_nil] at hshort
    omega
  obtain ⟨more, hcut⟩ : ∃ more, (body ++ ['\n'] ++ rest).take (maxLineLen - 1) = body ++ '\n' :: more := by
    refine ⟨rest.take (maxLineLen - 1 - (body.length + 1)), ?_⟩
    rw [List.take_append, List.take_of_length_le (by simpa using hlength)]
    simp
  have hall : ∀ c ∈ body, decide (c ≠ '\n') = true := by
    intro c hc
    simpa using fun he : c = '\n' => hbody (he ▸ hc)
  have hline : (body ++ '\n' :: more).takeWhile (· ≠ '\n') = body := by
    rw [List.takeWhile_append_of_pos hall]
    simp
  have hne : body ++ ['\n'] ++ rest ≠ [] := by simp
  simp only [fgets, if_neg hne, hcut, hline]
  rw [if_pos (by simp)]
  have htaken : body.length + 1 = (body ++ ['\n']).length := by simp
  rw [htaken, List.take_left, List.drop_left]

theorem fileLines_whole {lines : List (List Char)} (h : ∀ line ∈ lines, WholeLine line) {n : Nat}
    (hn : lines.length ≤ n) : fileLines n lines.flatten = lines := by
  induction lines generalizing n with
  | nil => cases n <;> simp [fileLines, fgets]
  | cons line lines ih =>
    cases n with
    | zero => simp at hn
    | succ n =>
      have hline := h line (by simp)
      rw [List.flatten_cons, fileLines, fgets_wholeLine hline]
      have htail := ih (fun l hl => h l (by simp [hl])) (by simpa using hn)
      simp only [htail]

theorem readGameFile_lines {lines : List (List Char)} (h : ∀ line ∈ lines, WholeLine line) :
    readGameFile lines.flatten = readGame (lines.map gameLine) := by
  have hn : lines.length ≤ lines.flatten.length := by
    induction lines with
    | nil => simp
    | cons line lines ih =>
      obtain ⟨⟨body, rfl, -⟩, -⟩ := h line (by simp)
      have := ih fun l hl => h l (by simp [hl])
      simp only [List.flatten_cons, List.length_append, List.length_cons, List.length_nil] at this ⊢
      omega
  rw [readGameFile, fileLines_whole h hn]

theorem gameLine_of_noNul {line : List Char} (h : '\x00' ∉ line) : gameLine line = keywordLine line := by
  have hall : ∀ c ∈ line, decide (c ≠ '\x00') = true := by
    intro c hc
    simpa using fun he : c = '\x00' => h (he ▸ hc)
  rw [gameLine, List.takeWhile_eq_self_iff.mpr hall]

/-- The text of numbers after a keyword. -/
def numbersText (numbers : List Int) : List Char := (numbers.flatMap fun n => ' ' :: printInt n) ++ ['\n']

theorem numbersText_chars {numbers : List Int} :
    ∀ c ∈ numbersText numbers, c.isDigit = true ∨ c = '-' ∨ c = ' ' ∨ c = '\n' := by
  intro c hc
  simp only [numbersText, List.mem_append, List.mem_flatMap, List.mem_cons, List.not_mem_nil, or_false] at hc
  obtain ⟨n, -, rfl | hc⟩ | rfl := hc
  · simp
  · rcases printInt_chars c hc with h | h <;> simp [h]
  · simp

theorem numbersText_stops (numbers : List Int) : StopsNumber (numbersText numbers) := by
  cases numbers with
  | nil => exact stopsNumber_cons (by decide) []
  | cons n numbers => exact stopsNumber_cons (by decide) _

theorem consumeSpaces_numbers {text : List Char} (h : ∀ c ∈ text.head?, isSpace c = false ∧ c ≠ '=') :
    consumeSpaces true (' ' :: text) = text := by
  have hblank : isSpace ' ' = true := by decide
  cases text with
  | nil => simp [consumeSpaces, hblank]
  | cons c text =>
    obtain ⟨hc, he⟩ := h c rfl
    simp [consumeSpaces, hblank, hc, he]

theorem printInt_head {x : Int} {rest : List Char} :
    ∀ c ∈ (printInt x ++ rest).head?, isSpace c = false ∧ c ≠ '=' := by
  intro c hc
  have hne : printInt x ≠ [] := by
    unfold printInt
    split <;> simp [printNat_ne_nil]
  rw [List.head?_append_of_ne_nil _ hne] at hc
  rcases printInt_chars c (List.mem_of_mem_head? hc) with h | rfl
  · exact ⟨not_isSpace_of_isDigit h, by rintro rfl; revert h; decide⟩
  · exact ⟨by decide, by decide⟩

theorem scanItems_numbers {α : Type} {scan : List Char → Option (α × List Char)} {numbers : List Int} {as : List α}
    (hscan : List.Forall₂ (fun x a => ∀ rest, StopsNumber rest → scan (printInt x ++ rest) = some (a, rest))
      numbers as)
    (hend : scan [] = none) {numItems : Nat} (hn : numbers.length ≤ numItems) :
    scanItems scan numItems (numbersText numbers) = as := by
  induction hscan generalizing numItems with
  | nil =>
    cases numItems with
    | zero => rfl
    | succ numItems =>
      have hnl : consumeSpaces true ['\n'] = [] := by decide
      simp [scanItems, numbersText, hnl, hend]
  | @cons x a numbers as hx _ ih =>
    cases numItems with
    | zero => simp at hn
    | succ numItems =>
      have hsplit : numbersText (x :: numbers) = ' ' :: (printInt x ++ numbersText numbers) := by
        simp [numbersText]
      have hitems := ih (by simpa using hn)
      rw [hsplit, scanItems, consumeSpaces_numbers printInt_head, hx _ (numbersText_stops numbers)]
      simp only [hitems]

/-- The numbers after the ` =` of a field. -/
theorem scanItems_field {α : Type} {scan : List Char → Option (α × List Char)} (numbers : List Int)
    (numItems : Nat) :
    scanItems scan numItems (' ' :: '=' :: numbersText numbers) = scanItems scan numItems (numbersText numbers) := by
  have hblank : isSpace ' ' = true := by decide
  cases numItems with
  | zero => rfl
  | succ numItems =>
    have hskip : consumeSpaces true (' ' :: '=' :: numbersText numbers) = consumeSpaces true (numbersText numbers) := by
      simp [consumeSpaces, hblank]
    rw [scanItems, scanItems, hskip]

theorem fieldLine_eq (name : List Char) (numbers : List Int) :
    fieldLine name numbers = name ++ ' ' :: '=' :: numbersText numbers := by
  have htext : " =".toList = [' ', '='] := rfl
  simp [fieldLine, numbersText, htext]

theorem gameLine_field {name : List Char} (read : List Char → GameLine) (numbers : List Int)
    (hname : '\x00' ∉ name) (hread : ∀ tail, keywordLine (name ++ tail) = read tail) :
    gameLine (fieldLine name numbers) = read (' ' :: '=' :: numbersText numbers) := by
  have hnumbers : '\x00' ∉ numbersText numbers := by
    intro hmem
    rcases numbersText_chars _ hmem with h | h | h | h <;> revert h <;> decide
  rw [fieldLine_eq, gameLine_of_noNul, hread]
  simp [hname, hnumbers]

theorem scanInts_field {numbers : List Int} (h : ∀ x ∈ numbers, FitsInt32 x) {numItems : Nat}
    (hn : numbers.length ≤ numItems) : scanInts numItems (' ' :: '=' :: numbersText numbers) = numbers := by
  have hscan : List.Forall₂
      (fun x a => ∀ rest, StopsNumber rest → scanInt32 (printInt x ++ rest) = some (a, rest)) numbers numbers :=
    List.forall₂_same.mpr fun x hx _ hr => scanInt32_printInt (h x hx) hr
  rw [scanInts, scanItems_field, scanItems_numbers hscan (by decide) hn]

theorem scanBytes_field {numbers : List Nat} (h : ∀ n ∈ numbers, n < 256) {numItems : Nat}
    (hn : numbers.length ≤ numItems) :
    scanBytes numItems (' ' :: '=' :: numbersText (numbers.map fun n : Nat => (n : Int))) =
      numbers.map fun n : Nat => (n : Int) := by
  have hscan : List.Forall₂
      (fun x a => ∀ rest, StopsNumber rest → scanUnsigned 8 (printInt x ++ rest) = some (a, rest))
      (numbers.map fun n : Nat => (n : Int)) numbers := by
    simp only [List.forall₂_map_left_iff, List.forall₂_same]
    intro n hmem rest hr
    have hbyte := h n hmem
    rw [printInt, if_neg (by omega), Int.natAbs_natCast]
    exact scanUnsigned_printNat 8 hbyte (by omega) hr
  rw [scanBytes, scanItems_field, scanItems_numbers hscan (by decide) (by simpa using hn)]

/-- What holds of a game that `readGame` accepts. -/
structure Game.Accepted (g : Game) : Prop where
  wf : g.WellFormed
  deck : g.DeckFits
  suits_pos : g.numSuits ≠ 0
  ranks_pos : g.numRanks ≠ 0
  maxRaises_lt : ∀ r, g.maxRaises r < 256
  boardCards_lt : ∀ r, g.numBoardCards r < 256

theorem Game.Accepted.bounds {g : Game} (h : g.Accepted) :
    g.numPlayers ≤ 10 ∧ g.numRounds ≤ 4 ∧ g.numSuits ≤ 4 ∧ g.numRanks ≤ 13 ∧ g.numHoleCards ≤ 3 :=
  ⟨h.wf.players_le, h.wf.rounds_le, h.deck.suits, h.deck.ranks, h.wf.holeCards_le⟩

def GameReader.BytesFit (r : GameReader) : Prop :=
  (∀ c, r.game.maxRaises c < 256) ∧ ∀ c, r.game.numBoardCards c < 256

theorem toUInt8_lt (x : Int) : toUInt8 x < 256 := by
  unfold toUInt8
  omega

theorem readItems_lt {numItems : Nat} {items : List Int} {old : Nat → Nat} (h : ∀ i, old i < 256) (i : Nat) :
    readItems numItems toUInt8 items old i < 256 := by
  unfold readItems
  split
  · rcases hi : items[i]? with _ | x
    · simpa [hi] using h i
    · simpa [hi] using toUInt8_lt x
  · exact h i

theorem GameReader.readLine_bytesFit {r r' : GameReader} {line : GameLine} (h : r.readLine line = some r')
    (hr : r.BytesFit) : r'.BytesFit := by
  obtain ⟨hraises, hboard⟩ := hr
  cases line with
  | maxRaises items => cases Option.some.inj h; exact ⟨readItems_lt hraises, hboard⟩
  | numBoardCards items => cases Option.some.inj h; exact ⟨hraises, readItems_lt hboard⟩
  | raiseSize items =>
    simp only [GameReader.readLine] at h
    split at h
    · simp at h
    · cases Option.some.inj h; exact ⟨hraises, hboard⟩
  | _ => cases Option.some.inj h; exact ⟨hraises, hboard⟩

theorem GameReader.readLines_bytesFit {lines : List GameLine} {r r' : GameReader}
    (h : r.readLines lines = some r') (hr : r.BytesFit) : r'.BytesFit := by
  induction lines generalizing r with
  | nil => cases Option.some.inj h; exact hr
  | cons line lines ih =>
    by_cases he : line = .endGamedef
    · subst he; cases Option.some.inj h; exact hr
    · rw [GameReader.readLines.eq_3 r line lines (by simpa using he)] at h
      obtain ⟨next, hn, h⟩ := Option.bind_eq_some_iff.mp h
      exact ih h (GameReader.readLine_bytesFit hn hr)

theorem readGame_accepted {lines : List GameLine} {g : Game} (h : readGame lines = some g) : g.Accepted := by
  have wf := readGame_wellFormed h
  have hdeck := readGame_deckFits h
  obtain ⟨r, hr, h⟩ := Option.bind_eq_some_iff.mp h
  have hfresh : GameReader.fresh.BytesFit := by
    constructor <;> intro c <;> simp [GameReader.fresh]
  obtain ⟨hraises, hboard⟩ := GameReader.readLines_bytesFit hr hfresh
  simp only [GameReader.sanityChecks, Option.bind_eq_bind, Option.bind_eq_some_iff, Option.guard_eq_some',
    Option.pure_def, Option.some.injEq, exists_and_left, exists_const] at h
  obtain ⟨-, -, -, -, -, -, -, hsuits, hranks, -, -, -, rfl⟩ := h
  exact ⟨wf, hdeck, hsuits.1, hranks.1, hraises, hboard⟩

variable {g : Game}

theorem Game.perPlayer_length (g : Game) (f : Nat → Int) : (g.perPlayer f).length = g.numPlayers := by
  simp [Game.perPlayer]

theorem Game.perRound_length (g : Game) (f : Nat → Int) : (g.perRound f).length = g.numRounds := by
  simp [Game.perRound]

theorem gameLine_ints {name : List Char} (read : List Int → GameLine) (numItems : Nat) {numbers : List Int}
    (hname : '\x00' ∉ name) (hread : ∀ tail, keywordLine (name ++ tail) = read (scanInts numItems tail))
    (h : ∀ x ∈ numbers, FitsInt32 x) (hn : numbers.length ≤ numItems) :
    gameLine (fieldLine name numbers) = read numbers := by
  rw [gameLine_field (fun tail => read (scanInts numItems tail)) numbers hname hread, scanInts_field h hn]

theorem gameLine_bytes {name : List Char} (read : List Int → GameLine) (numItems : Nat) {numbers : List Nat}
    (hname : '\x00' ∉ name) (hread : ∀ tail, keywordLine (name ++ tail) = read (scanBytes numItems tail))
    (h : ∀ n ∈ numbers, n < 256) (hn : numbers.length ≤ numItems) :
    gameLine (fieldLine name (numbers.map fun n : Nat => (n : Int))) = read (numbers.map fun n : Nat => (n : Int)) := by
  rw [gameLine_field (fun tail => read (scanBytes numItems tail)) _ hname hread, scanBytes_field h hn]

theorem gameLine_byte {name : List Char} (read : List Int → GameLine) {n : Nat}
    (hname : '\x00' ∉ name) (hread : ∀ tail, keywordLine (name ++ tail) = read (scanBytes 1 tail))
    (h : n < 256) : gameLine (fieldLine name [(n : Int)]) = read [(n : Int)] := by
  have hbytes : ∀ m ∈ [n], m < 256 := by simpa using h
  exact gameLine_bytes read 1 hname hread hbytes (by simp)

theorem gameLine_perRound {name : List Char} (read : List Int → GameLine) (f : Nat → Nat)
    (hname : '\x00' ∉ name) (hread : ∀ tail, keywordLine (name ++ tail) = read (scanBytes maxRounds tail))
    (h : ∀ r, f r < 256) (hn : g.numRounds ≤ maxRounds) :
    gameLine (fieldLine name (g.perRound fun r => (f r : Int))) = read (g.perRound fun r => (f r : Int)) := by
  have hcast : (g.perRound fun r => (f r : Int)) = ((List.range g.numRounds).map f).map fun n : Nat => (n : Int) := by
    simp [Game.perRound]
  rw [hcast]
  apply gameLine_bytes read maxRounds hname hread
  · intro n hmem
    obtain ⟨r, -, rfl⟩ := List.mem_map.mp hmem
    exact h r
  · simpa using hn

/-- What `readGame` makes of the lines that `printGame` writes. -/
def printedLines (g : Game) : List GameLine :=
  [.other, if g.bettingType = .noLimitBetting then .nolimit else .limit,
    .numPlayers [(g.numPlayers : Int)], .numRounds [(g.numRounds : Int)]] ++
  (if ∃ i < g.numPlayers, g.stack i < int32Max then [.stack (g.perPlayer g.stack)] else []) ++
  [.blind (g.perPlayer g.blind)] ++
  (if g.bettingType = .limitBetting then [.raiseSize (g.perRound g.raiseSize)] else []) ++
  (if ∃ i < g.numRounds, g.firstPlayer i ≠ 0 then
    [.firstPlayer (g.perRound fun i => ((g.firstPlayer i + 1) % 256 : Nat))] else []) ++
  (if ∃ i < g.numRounds, g.maxRaises i ≠ 255 then
    [.maxRaises (g.perRound fun i => (g.maxRaises i : Nat))] else []) ++
  [.numSuits [(g.numSuits : Int)], .numRanks [(g.numRanks : Int)], .numHoleCards [(g.numHoleCards : Int)],
    .numBoardCards (g.perRound fun i => (g.numBoardCards i : Nat)), .endGamedef]

theorem Game.perPlayer_fits {f : Nat → Int} (h : ∀ p, FitsInt32 (f p)) : ∀ x ∈ g.perPlayer f, FitsInt32 x := by
  intro x hx
  obtain ⟨p, -, rfl⟩ := List.mem_map.mp hx
  exact h p

theorem Game.perRound_fits {f : Nat → Int} (h : ∀ r, FitsInt32 (f r)) : ∀ x ∈ g.perRound f, FitsInt32 x := by
  intro x hx
  obtain ⟨r, -, rfl⟩ := List.mem_map.mp hx
  exact h r

theorem printGame_lines (h : g.Accepted) : (printGameLines g).map gameLine = printedLines g := by
  obtain ⟨hplayers, hrounds, hsuits, hranks, hhole⟩ := h.bounds
  have hplayersLength : ∀ f, (g.perPlayer f).length ≤ maxPlayers := by
    intro f
    rw [g.perPlayer_length]
    exact h.wf.players_le
  have hroundsLength : ∀ f, (g.perRound f).length ≤ maxPlayers := by
    intro f
    rw [g.perRound_length, maxPlayers]
    omega
  have hstack : gameLine (fieldLine "stack".toList (g.perPlayer g.stack)) = .stack (g.perPlayer g.stack) :=
    gameLine_ints .stack maxPlayers (by decide) (fun _ => rfl) (g.perPlayer_fits h.wf.stack_fits)
      (hplayersLength g.stack)
  have hblind : gameLine (fieldLine "blind".toList (g.perPlayer g.blind)) = .blind (g.perPlayer g.blind) :=
    gameLine_ints .blind maxPlayers (by decide) (fun _ => rfl) (g.perPlayer_fits h.wf.blind_fits)
      (hplayersLength g.blind)
  have hraise : gameLine (fieldLine "raiseSize".toList (g.perRound g.raiseSize)) = .raiseSize (g.perRound g.raiseSize) :=
    gameLine_ints .raiseSize maxPlayers (by decide) (fun _ => rfl) (g.perRound_fits h.wf.raiseSize_fits)
      (hroundsLength g.raiseSize)
  have hfirst : gameLine (fieldLine "firstPlayer".toList (g.perRound fun i => ((g.firstPlayer i + 1) % 256 : Nat))) =
      .firstPlayer (g.perRound fun i => ((g.firstPlayer i + 1) % 256 : Nat)) :=
    gameLine_perRound .firstPlayer (fun i => (g.firstPlayer i + 1) % 256) (by decide) (fun _ => rfl)
      (fun r => by omega) h.wf.rounds_le
  have hmost : gameLine (fieldLine "maxRaises".toList (g.perRound fun i => (g.maxRaises i : Nat))) =
      .maxRaises (g.perRound fun i => (g.maxRaises i : Nat)) :=
    gameLine_perRound .maxRaises g.maxRaises (by decide) (fun _ => rfl) h.maxRaises_lt h.wf.rounds_le
  have hboard : gameLine (fieldLine "numBoardCards".toList (g.perRound fun i => (g.numBoardCards i : Nat))) =
      .numBoardCards (g.perRound fun i => (g.numBoardCards i : Nat)) :=
    gameLine_perRound .numBoardCards g.numBoardCards (by decide) (fun _ => rfl) h.boardCards_lt h.wf.rounds_le
  have hplayersLine : gameLine (fieldLine "numPlayers".toList [(g.numPlayers : Int)]) = .numPlayers [(g.numPlayers : Int)] :=
    gameLine_byte .numPlayers (by decide) (fun _ => rfl) (by omega)
  have hroundsLine : gameLine (fieldLine "numRounds".toList [(g.numRounds : Int)]) = .numRounds [(g.numRounds : Int)] :=
    gameLine_byte .numRounds (by decide) (fun _ => rfl) (by omega)
  have hsuitsLine : gameLine (fieldLine "numSuits".toList [(g.numSuits : Int)]) = .numSuits [(g.numSuits : Int)] :=
    gameLine_byte .numSuits (by decide) (fun _ => rfl) (by omega)
  have hranksLine : gameLine (fieldLine "numRanks".toList [(g.numRanks : Int)]) = .numRanks [(g.numRanks : Int)] :=
    gameLine_byte .numRanks (by decide) (fun _ => rfl) (by omega)
  have hholeLine : gameLine (fieldLine "numHoleCards".toList [(g.numHoleCards : Int)]) =
      .numHoleCards [(g.numHoleCards : Int)] :=
    gameLine_byte .numHoleCards (by decide) (fun _ => rfl) (by omega)
  have hstart : gameLine "GAMEDEF\n".toList = .other := rfl
  have hend : gameLine "END GAMEDEF\n".toList = .endGamedef := rfl
  have hbetting : gameLine (if g.bettingType = .noLimitBetting then "nolimit\n".toList else "limit\n".toList) =
      if g.bettingType = .noLimitBetting then .nolimit else .limit := by
    split <;> rfl
  simp only [printGameLines, printedLines, List.map_append, List.map_cons, List.map_nil, apply_ite (List.map gameLine),
    hstart, hbetting, hplayersLine, hroundsLine, hstack, hblind, hraise, hfirst, hmost, hsuitsLine, hranksLine,
    hholeLine, hboard, hend]

/-- A line that is written only under a condition. -/
theorem GameReader.readLines_optional {p : Prop} [Decidable p] {line : GameLine} {r next : GameReader}
    (hline : line ≠ .endGamedef) (h : r.readLine line = some next) (ys : List GameLine) :
    r.readLines ((if p then [line] else []) ++ ys) = (if p then next else r).readLines ys := by
  split
  · rw [List.singleton_append, GameReader.readLines.eq_3 r line ys (by simpa using hline), h, Option.bind_some]
  · rfl

/-- The fields of a game after its printed text is read, before the checks. -/
def Game.rereader (g : Game) : GameReader where
  game :=
    { stack := if ∃ i < g.numPlayers, g.stack i < int32Max
        then readItems maxPlayers wrapInt32 (g.perPlayer g.stack) GameReader.fresh.game.stack
        else GameReader.fresh.game.stack
      blind := readItems maxPlayers wrapInt32 (g.perPlayer g.blind) fun _ => 0
      raiseSize := if g.bettingType = .limitBetting
        then readItems maxPlayers wrapInt32 (g.perRound g.raiseSize) fun _ => 0
        else fun _ => 0
      bettingType := g.bettingType
      numPlayers := toUInt8 g.numPlayers
      numRounds := toUInt8 g.numRounds
      firstPlayer := if ∃ i < g.numRounds, g.firstPlayer i ≠ 0
        then readItems maxRounds toUInt8 (g.perRound fun i => ((g.firstPlayer i + 1) % 256 : Nat)) fun _ => 1
        else fun _ => 1
      maxRaises := if ∃ i < g.numRounds, g.maxRaises i ≠ 255
        then readItems maxRounds toUInt8 (g.perRound fun i => (g.maxRaises i : Nat)) fun _ => 255
        else fun _ => 255
      numSuits := toUInt8 g.numSuits
      numRanks := toUInt8 g.numRanks
      numHoleCards := toUInt8 g.numHoleCards
      numBoardCards := readItems maxRounds toUInt8 (g.perRound fun i => (g.numBoardCards i : Nat)) fun _ => 0 }
  stackRead := if ∃ i < g.numPlayers, g.stack i < int32Max then g.numPlayers else 4
  blindRead := g.numPlayers
  raiseSizeRead := if g.bettingType = .limitBetting then g.numRounds else 0
  boardCardsRead := g.numRounds

theorem readLines_printed (h : g.Accepted) : GameReader.fresh.readLines (printedLines g) = some g.rereader := by
  have hplayers := h.wf.players_le
  have hrounds := h.wf.rounds_le
  have hraise : ∀ r : GameReader, r.readLine (.raiseSize (g.perRound g.raiseSize)) = some
      { r with
        game := { r.game with raiseSize := readItems maxPlayers wrapInt32 (g.perRound g.raiseSize) r.game.raiseSize }
        raiseSizeRead := min (g.perRound g.raiseSize).length maxPlayers } := by
    intro r
    rw [GameReader.readLine, if_neg]
    rw [g.perRound_length]
    omega
  have hbetting : ∀ (r : GameReader) (ys : List GameLine),
      r.readLines ((if g.bettingType = .noLimitBetting then GameLine.nolimit else .limit) :: ys) =
        GameReader.readLines { r with game := { r.game with bettingType := g.bettingType } } ys := by
    intro r ys
    cases g.bettingType <;> rfl
  simp only [printedLines, List.append_assoc, List.cons_append, List.nil_append]
  rw [GameReader.readLines.eq_3 _ _ _ (by simp), GameReader.readLine, Option.bind_some, hbetting,
    GameReader.readLines.eq_3 _ _ _ (by simp), GameReader.readLine, Option.bind_some,
    GameReader.readLines.eq_3 _ _ _ (by simp), GameReader.readLine, Option.bind_some,
    GameReader.readLines_optional (by simp) rfl,
    GameReader.readLines.eq_3 _ _ _ (by simp), GameReader.readLine, Option.bind_some,
    GameReader.readLines_optional (by simp) (hraise _),
    GameReader.readLines_optional (by simp) rfl,
    GameReader.readLines_optional (by simp) rfl]
  simp only [GameReader.readLines, GameReader.readLine, Option.bind_some]
  have hplayersLength : ∀ f, min (g.perPlayer f).length maxPlayers = g.numPlayers := by
    intro f
    rw [g.perPlayer_length, min_eq_left hplayers]
  have hroundsLength : ∀ f, min (g.perRound f).length maxRounds = g.numRounds := by
    intro f
    rw [g.perRound_length, min_eq_left hrounds]
  have hraiseLength : min (g.perRound g.raiseSize).length maxPlayers = g.numRounds := by
    unfold maxRounds at hrounds
    rw [g.perRound_length, maxPlayers, min_eq_left (by omega)]
  simp only [apply_ite GameReader.game, apply_ite GameReader.stackRead, apply_ite GameReader.raiseSizeRead,
    apply_ite Game.stack, apply_ite Game.raiseSize, apply_ite Game.blind, apply_ite Game.bettingType,
    apply_ite Game.numPlayers, apply_ite Game.numRounds, apply_ite Game.firstPlayer, apply_ite Game.maxRaises,
    apply_ite Game.numSuits, apply_ite Game.numRanks, apply_ite Game.numHoleCards, apply_ite Game.numBoardCards,
    apply_ite GameReader.blindRead, apply_ite GameReader.boardCardsRead, ite_self, hplayersLength, hroundsLength, hraiseLength]
  rfl

theorem readItems_range {α : Type} {convert : Int → α} {f : Nat → Int} {old : Nat → α} {n numItems i : Nat} (hi : i < n)
    (hn : n ≤ numItems) : readItems numItems convert ((List.range n).map f) old i = convert (f i) := by
  rw [readItems, if_pos (by omega)]
  simp [hi]

theorem toUInt8_natCast {n : Nat} (h : n < 256) : toUInt8 (n : Int) = n := by
  unfold toUInt8
  omega

theorem int32Max_of_not_lt {f : Nat → Int} {n : Nat} (hfits : ∀ p, FitsInt32 (f p))
    (h : ¬∃ i < n, f i < int32Max) : ∀ p < n, f p = int32Max := by
  intro p hp
  have hle := (hfits p).2
  have hge : ¬f p < int32Max := fun hlt => h ⟨p, hp, hlt⟩
  unfold int32Max at *
  omega

/-- Two games with the same values wherever the rules of the game look. -/
structure Game.Same (g g' : Game) : Prop where
  bettingType : g'.bettingType = g.bettingType
  numPlayers : g'.numPlayers = g.numPlayers
  numRounds : g'.numRounds = g.numRounds
  stack : ∀ p < g.numPlayers, g'.stack p = g.stack p
  blind : ∀ p < g.numPlayers, g'.blind p = g.blind p
  raiseSize : g.bettingType = .limitBetting → ∀ r < g.numRounds, g'.raiseSize r = g.raiseSize r
  firstPlayer : ∀ r < g.numRounds, g'.firstPlayer r = g.firstPlayer r
  maxRaises : ∀ r < g.numRounds, g'.maxRaises r = g.maxRaises r
  numSuits : g'.numSuits = g.numSuits
  numRanks : g'.numRanks = g.numRanks
  numHoleCards : g'.numHoleCards = g.numHoleCards
  numBoardCards : ∀ r < g.numRounds, g'.numBoardCards r = g.numBoardCards r

/-- `printGame` leaves the stack line out, and `readGame` takes four stacks for granted. -/
def Game.StacksUnknown (g : Game) : Prop := 4 < g.numPlayers ∧ ∀ p < g.numPlayers, g.stack p = int32Max

theorem Game.rereader_stack (h : g.Accepted) (hknown : ¬g.StacksUnknown) :
    ∀ p < g.numPlayers, g.rereader.game.stack p = g.stack p := by
  intro p hp
  simp only [Game.rereader]
  split
  next hprinted =>
    rw [Game.perPlayer, readItems_range hp h.wf.players_le]
    exact wrapInt32_eq (h.wf.stack_fits p)
  next hprinted =>
    have hall := int32Max_of_not_lt h.wf.stack_fits hprinted
    have hfour : ¬4 < g.numPlayers := fun hlt => hknown ⟨hlt, hall⟩
    rw [hall p hp]
    exact if_pos (by unfold maxRounds; omega)

theorem Game.rereader_firstPlayer (h : g.Accepted) :
    ∀ r < g.numRounds, g.rereader.game.firstPlayer r = g.firstPlayer r + 1 := by
  intro r hr
  have hlt := h.wf.firstPlayer_lt r hr
  have hplayers := h.wf.players_le
  unfold maxPlayers at hplayers
  simp only [Game.rereader]
  split
  next hprinted =>
    rw [Game.perRound, readItems_range hr h.wf.rounds_le, toUInt8_natCast (by omega)]
    omega
  next hprinted =>
    have hzero : g.firstPlayer r = 0 := by
      by_contra hne
      exact hprinted ⟨r, hr, hne⟩
    rw [hzero]

theorem Game.rereader_maxRaises (h : g.Accepted) :
    ∀ r < g.numRounds, g.rereader.game.maxRaises r = g.maxRaises r := by
  intro r hr
  simp only [Game.rereader]
  split
  next hprinted => rw [Game.perRound, readItems_range hr h.wf.rounds_le, toUInt8_natCast (h.maxRaises_lt r)]
  next hprinted =>
    by_contra hne
    exact hprinted ⟨r, hr, fun he => hne he.symm⟩

/-- The fields that are always printed. -/
theorem Game.rereader_printed (h : g.Accepted) :
    g.rereader.game.numPlayers = g.numPlayers ∧ g.rereader.game.numRounds = g.numRounds ∧
      g.rereader.game.numSuits = g.numSuits ∧ g.rereader.game.numRanks = g.numRanks ∧
      g.rereader.game.numHoleCards = g.numHoleCards ∧
      (∀ p < g.numPlayers, g.rereader.game.blind p = g.blind p) ∧
      ∀ r < g.numRounds, g.rereader.game.numBoardCards r = g.numBoardCards r := by
  obtain ⟨hplayers, hrounds, hsuits, hranks, hhole⟩ := h.bounds
  refine ⟨toUInt8_natCast (by omega), toUInt8_natCast (by omega), toUInt8_natCast (by omega),
    toUInt8_natCast (by omega), toUInt8_natCast (by omega), fun p hp => ?_, fun r hr => ?_⟩
  · simp only [Game.rereader, Game.perPlayer]
    rw [readItems_range hp h.wf.players_le]
    exact wrapInt32_eq (h.wf.blind_fits p)
  · simp only [Game.rereader, Game.perRound]
    rw [readItems_range hr h.wf.rounds_le]
    exact toUInt8_natCast (h.boardCards_lt r)

theorem Game.rereader_raiseSize (h : g.Accepted) (hlimit : g.bettingType = .limitBetting) :
    ∀ r < g.numRounds, g.rereader.game.raiseSize r = g.raiseSize r := by
  intro r hr
  have hrounds : g.numRounds ≤ maxPlayers := by
    have := h.wf.rounds_le
    unfold maxRounds at this
    unfold maxPlayers
    omega
  simp only [Game.rereader, if_pos hlimit, Game.perRound]
  rw [readItems_range hr hrounds]
  exact wrapInt32_eq (h.wf.raiseSize_fits r)

/-- The game that comes out when the checks pass. -/
def Game.reread (g : Game) : Game :=
  { g.rereader.game with firstPlayer := fun c =>
    if c < g.rereader.game.numRounds then g.rereader.game.firstPlayer c - 1 else g.rereader.game.firstPlayer c }

theorem sanityChecks_rereader (h : g.Accepted) (hknown : ¬g.StacksUnknown) :
    g.rereader.sanityChecks = some g.reread := by
  obtain ⟨hplayers, hrounds, hsuits, hranks, hhole, hblind, hboard⟩ := g.rereader_printed h
  have hstack := g.rereader_stack h hknown
  have hfirst := g.rereader_firstPlayer h
  have hstackRead : g.numPlayers ≤ g.rereader.stackRead := by
    simp only [Game.rereader]
    split
    next hprinted => exact le_rfl
    next hprinted =>
      by_contra hlt
      exact hknown ⟨by omega, int32Max_of_not_lt h.wf.stack_fits hprinted⟩
  have hraiseRead : g.rereader.game.bettingType = .limitBetting → g.numRounds ≤ g.rereader.raiseSizeRead := by
    intro hlimit
    have hlimit' : g.bettingType = .limitBetting := hlimit
    simp [Game.rereader, hlimit']
  have htotal : g.rereader.game.totalCards = g.totalCards := by
    unfold Game.totalCards
    rw [hplayers, hrounds, hhole]
    congr 2
    exact List.map_congr_left fun r hr => hboard r (List.mem_range.mp hr)
  have hblinds : ∀ c < g.numPlayers, g.rereader.game.blind c ≤ g.rereader.game.stack c := by
    intro c hc
    rw [hblind c hc, hstack c hc]
    exact h.wf.blind_le_stack c hc
  have hfirsts : ∀ c < g.numRounds,
      g.rereader.game.firstPlayer c ≠ 0 ∧ g.rereader.game.firstPlayer c ≤ g.numPlayers := by
    intro c hc
    have := h.wf.firstPlayer_lt c hc
    rw [hfirst c hc]
    omega
  have hblindRead : g.numPlayers ≤ g.rereader.blindRead := le_rfl
  have hboardRead : g.numRounds ≤ g.rereader.boardCardsRead := le_rfl
  simp only [GameReader.sanityChecks, hplayers, hrounds, hsuits, hranks, hhole, htotal, Option.bind_eq_bind,
    Option.bind_eq_some_iff, Option.guard_eq_some', Option.pure_def, exists_and_left, exists_const]
  exact ⟨⟨h.wf.rounds_pos.ne', h.wf.rounds_le⟩, ⟨h.wf.players_ge, h.wf.players_le⟩, hstackRead, hblindRead, hblinds,
    hraiseRead, hfirsts, ⟨h.suits_pos, h.deck.suits⟩, ⟨h.ranks_pos, h.deck.ranks⟩,
    ⟨h.wf.holeCards_pos.ne', h.wf.holeCards_le⟩, hboardRead, h.deck.enough,
    by simp only [Game.reread, hplayers, hrounds, hsuits, hranks, hhole]⟩

theorem sanityChecks_stacksUnknown (h : g.Accepted) (hunknown : g.StacksUnknown) :
    g.rereader.sanityChecks = none := by
  have hplayers := (g.rereader_printed h).1
  have hstackRead : g.rereader.stackRead = 4 := by
    simp only [Game.rereader]
    rw [if_neg]
    rintro ⟨i, hi, hlt⟩
    have := hunknown.2 i hi
    omega
  have hfew : ¬g.numPlayers ≤ 4 := by
    have := hunknown.1
    omega
  by_contra hne
  obtain ⟨g', hg'⟩ := Option.ne_none_iff_exists'.mp hne
  simp only [GameReader.sanityChecks, hplayers, hstackRead, Option.bind_eq_bind, Option.bind_eq_some_iff,
    Option.guard_eq_some', exists_and_left, exists_const] at hg'
  exact hfew hg'.2.2.1

theorem Game.same_reread (h : g.Accepted) (hknown : ¬g.StacksUnknown) : g.Same g.reread := by
  obtain ⟨hplayers, hrounds, hsuits, hranks, hhole, hblind, hboard⟩ := g.rereader_printed h
  exact
    { bettingType := rfl
      numPlayers := hplayers
      numRounds := hrounds
      stack := g.rereader_stack h hknown
      blind := hblind
      raiseSize := g.rereader_raiseSize h
      firstPlayer := by
        intro r hr
        have hfirst := g.rereader_firstPlayer h r hr
        simp only [Game.reread, hrounds, if_pos hr]
        omega
      maxRaises := g.rereader_maxRaises h
      numSuits := hsuits
      numRanks := hranks
      numHoleCards := hhole
      numBoardCards := hboard }

theorem Game.Same.printGame_eq {g' : Game} (h : g.Same g') : printGame g' = printGame g := by
  have hperPlayer : ∀ {f f' : Nat → Int}, (∀ p < g.numPlayers, f' p = f p) → g'.perPlayer f' = g.perPlayer f := by
    intro f f' hf
    unfold Game.perPlayer
    rw [h.numPlayers]
    exact List.map_congr_left fun p hp => hf p (List.mem_range.mp hp)
  have hperRound : ∀ {f f' : Nat → Int}, (∀ r < g.numRounds, f' r = f r) → g'.perRound f' = g.perRound f := by
    intro f f' hf
    unfold Game.perRound
    rw [h.numRounds]
    exact List.map_congr_left fun r hr => hf r (List.mem_range.mp hr)
  have hstack : (∃ p < g.numPlayers, g'.stack p < int32Max) ↔ ∃ p < g.numPlayers, g.stack p < int32Max :=
    exists_congr fun p => and_congr_right fun hp => by rw [h.stack p hp]
  have hfirst : (∃ r < g.numRounds, g'.firstPlayer r ≠ 0) ↔ ∃ r < g.numRounds, g.firstPlayer r ≠ 0 :=
    exists_congr fun r => and_congr_right fun hr => by rw [h.firstPlayer r hr]
  have hmost : (∃ r < g.numRounds, g'.maxRaises r ≠ 255) ↔ ∃ r < g.numRounds, g.maxRaises r ≠ 255 :=
    exists_congr fun r => and_congr_right fun hr => by rw [h.maxRaises r hr]
  have hfirstLine : (g'.perRound fun i => ((g'.firstPlayer i + 1) % 256 : Nat)) =
      g.perRound fun i => ((g.firstPlayer i + 1) % 256 : Nat) :=
    hperRound fun r hr => by rw [h.firstPlayer r hr]
  have hmostLine : (g'.perRound fun i => (g'.maxRaises i : Nat)) = g.perRound fun i => (g.maxRaises i : Nat) :=
    hperRound fun r hr => by rw [h.maxRaises r hr]
  have hboardLine : (g'.perRound fun i => (g'.numBoardCards i : Nat)) = g.perRound fun i => (g.numBoardCards i : Nat) :=
    hperRound fun r hr => by rw [h.numBoardCards r hr]
  have hraiseLine : (if g.bettingType = .limitBetting then [fieldLine "raiseSize".toList (g'.perRound g'.raiseSize)]
      else []) = if g.bettingType = .limitBetting then [fieldLine "raiseSize".toList (g.perRound g.raiseSize)] else [] := by
    split
    next hlimit => rw [hperRound (h.raiseSize hlimit)]
    next => rfl
  simp only [printGame, printGameLines, h.bettingType, h.numPlayers, h.numRounds, h.numSuits, h.numRanks,
    h.numHoleCards, hstack, hfirst, hmost, hperPlayer h.stack, hperPlayer h.blind, hraiseLine, hfirstLine, hmostLine,
    hboardLine]

theorem fieldLine_whole {name : List Char} {numbers : List Int} (hname : '\n' ∉ name) (hshort : name.length ≤ 20)
    (hfits : ∀ x ∈ numbers, FitsInt32 x) (hlength : numbers.length ≤ 10) : WholeLine (fieldLine name numbers) := by
  have htext : " =".toList = [' ', '='] := rfl
  have hlong : (numbers.flatMap fun n => ' ' :: printInt n).length ≤ 12 * numbers.length := by
    clear hlength
    induction numbers with
    | nil => simp
    | cons x numbers ih =>
      have hx := printInt_length_le (hfits x (by simp))
      have htail := ih fun y hy => hfits y (by simp [hy])
      simp only [List.flatMap_cons, List.length_append, List.length_cons]
      omega
  refine ⟨⟨name ++ " =".toList ++ numbers.flatMap fun n => ' ' :: printInt n, rfl, ?_⟩, ?_⟩
  · simp only [htext, List.mem_append, List.mem_cons, List.not_mem_nil, List.mem_flatMap, not_or, hname,
      not_false_eq_true, true_and, not_exists, not_and]
    refine ⟨⟨by decide, by decide, trivial⟩, fun x _ => ⟨by decide, ?_⟩⟩
    exact not_mem_printInt (by decide) (by decide)
  · simp only [fieldLine, htext, List.length_append, List.length_cons, List.length_nil, maxLineLen]
    omega

theorem eq_of_mem_optional {α : Type} {p : Prop} [Decidable p] {a b : α} (h : a ∈ if p then [b] else []) : a = b := by
  split at h
  · exact List.mem_singleton.mp h
  · exact absurd h List.not_mem_nil

theorem printGameLines_whole (h : g.Accepted) : ∀ line ∈ printGameLines g, WholeLine line := by
  obtain ⟨hplayers, hrounds, hsuits, hranks, hhole⟩ := h.bounds
  have hbyte : ∀ {n : Nat}, n < 256 → FitsInt32 (n : Int) := by
    intro n hn
    unfold FitsInt32 int32Max
    omega
  have hone : ∀ {n : Nat}, n < 256 → ∀ x ∈ [(n : Int)], FitsInt32 x := by
    intro n hn x hx
    rw [List.mem_singleton.mp hx]
    exact hbyte hn
  have hplayersLength : ∀ f, (g.perPlayer f).length ≤ 10 := by
    intro f
    rw [g.perPlayer_length]
    exact hplayers
  have hroundsLength : ∀ f, (g.perRound f).length ≤ 10 := by
    intro f
    rw [g.perRound_length]
    omega
  intro line hline
  simp only [printGameLines, List.mem_append, List.mem_cons, List.not_mem_nil, or_false] at hline
  rcases hline with ((((((rfl | rfl | rfl | rfl) | hline) | rfl) | hline) | hline) | hline) | rfl | rfl | rfl | rfl | rfl
  · exact ⟨⟨"GAMEDEF".toList, rfl, by decide⟩, by decide⟩
  · split
    · exact ⟨⟨"nolimit".toList, rfl, by decide⟩, by decide⟩
    · exact ⟨⟨"limit".toList, rfl, by decide⟩, by decide⟩
  · exact fieldLine_whole (by decide) (by decide) (hone (by omega)) (by simp)
  · exact fieldLine_whole (by decide) (by decide) (hone (by omega)) (by simp)
  · rw [eq_of_mem_optional hline]
    exact fieldLine_whole (by decide) (by decide) (g.perPlayer_fits h.wf.stack_fits) (hplayersLength _)
  · exact fieldLine_whole (by decide) (by decide) (g.perPlayer_fits h.wf.blind_fits) (hplayersLength _)
  · rw [eq_of_mem_optional hline]
    exact fieldLine_whole (by decide) (by decide) (g.perRound_fits h.wf.raiseSize_fits) (hroundsLength _)
  · rw [eq_of_mem_optional hline]
    exact fieldLine_whole (by decide) (by decide) (g.perRound_fits fun r => hbyte (by omega)) (hroundsLength _)
  · rw [eq_of_mem_optional hline]
    exact fieldLine_whole (by decide) (by decide) (g.perRound_fits fun r => hbyte (h.maxRaises_lt r)) (hroundsLength _)
  · exact fieldLine_whole (by decide) (by decide) (hone (by omega)) (by simp)
  · exact fieldLine_whole (by decide) (by decide) (hone (by omega)) (by simp)
  · exact fieldLine_whole (by decide) (by decide) (hone (by omega)) (by simp)
  · exact fieldLine_whole (by decide) (by decide) (g.perRound_fits fun r => hbyte (h.boardCards_lt r)) (hroundsLength _)
  · exact ⟨⟨"END GAMEDEF".toList, rfl, by decide⟩, by decide⟩

theorem readGameFile_printGame (h : g.Accepted) : readGameFile (printGame g) = g.rereader.sanityChecks := by
  rw [printGame, readGameFile_lines (printGameLines_whole h), printGame_lines h, readGame, readLines_printed h,
    Option.bind_some]

/-- The text that `printGame` writes is read back as the same game, and is written again as the
same text, unless the stack line that it leaves out is one that `readGame` misses. -/
theorem printGame_reread {text : List Char} (h : readGameFile text = some g) :
    (readGameFile (printGame g) = none ↔ g.StacksUnknown) ∧
      ∀ g', readGameFile (printGame g) = some g' → g.Same g' ∧ printGame g' = printGame g := by
  have hg := readGame_accepted h
  by_cases hunknown : g.StacksUnknown
  · rw [readGameFile_printGame hg, sanityChecks_stacksUnknown hg hunknown]
    simp [hunknown]
  · rw [readGameFile_printGame hg, sanityChecks_rereader hg hunknown]
    refine ⟨by simp [hunknown], fun g' hg' => ?_⟩
    cases Option.some.inj hg'
    have hsame := g.same_reread hg hunknown
    exact ⟨hsame, hsame.printGame_eq⟩

/-- A game of five players with unlimited stacks. -/
def crowdText : List Char :=
  ("GAMEDEF\nnolimit\nnumPlayers = 5\nnumRounds = 1\nstack = 2147483647 2147483647 2147483647 2147483647 2147483647\n" ++
    "blind = 1 2 0 0 0\nfirstPlayer = 3\nnumSuits = 4\nnumRanks = 13\nnumHoleCards = 2\nnumBoardCards = 0\n" ++
    "END GAMEDEF\n").toList

theorem crowdText_read : (readGameFile crowdText).isSome = true := by decide +kernel

def crowdGame : Game := (readGameFile crowdText).get crowdText_read

/-- A limit game of two players with unlimited stacks, whose file leaves the stacks out. -/
def pairText : List Char :=
  ("GAMEDEF\nlimit\nnumPlayers = 2\nnumRounds = 2\nblind = 10 5\nraiseSize = 10 20\nfirstPlayer = 2 1\nmaxRaises = 3 4\n" ++
    "numSuits = 4\nnumRanks = 13\nnumHoleCards = 2\nnumBoardCards = 0 3\nEND GAMEDEF\n").toList

theorem pairText_read : (readGameFile pairText).isSome = true := by decide +kernel

def pairGame : Game := (readGameFile pairText).get pairText_read

theorem printGame_reread_crowd :
    readGameFile (printGame crowdGame) = none ∧
      ∃ g', readGameFile (printGame pairGame) = some g' ∧ pairGame.Same g' ∧ printGame g' = printGame pairGame := by
  have hunknown : 4 < crowdGame.numPlayers ∧ ∀ p < crowdGame.numPlayers, crowdGame.stack p = int32Max := by
    decide +kernel
  have hread : readGameFile crowdText = some crowdGame := by simp [crowdGame]
  have hpair : readGameFile pairText = some pairGame := by simp [pairGame]
  have htwo : pairGame.numPlayers = 2 := by decide +kernel
  have hknown : ¬ pairGame.StacksUnknown := by
    intro h
    have hmany : 4 < pairGame.numPlayers := h.1
    omega
  obtain ⟨hrefused, hsame⟩ := printGame_reread hpair
  obtain ⟨g', hg'⟩ := Option.ne_none_iff_exists'.mp (mt hrefused.mp hknown)
  exact ⟨(printGame_reread hread).1.mpr hunknown, g', hg', hsame g' hg'⟩

end MasterAI
