import DocQuery.Grammar.Scan
import DocQuery.Proofs.Grammar.Soundness
import Mathlib.Data.List.Induction

/-! The tokens of a text cover it. A reading is cut off the front of a text, so
the tokens and what is between them make the text up again, and from this alone
follows where each of them stands: nothing is kept about a place but the
characters in front of it. -/
namespace DocQuery.Grammar

open Text

/-- White space and comments. A comment ends with its line; only the last one of
a text may end with the text instead. -/
inductive Layout : Bool → List Char → Prop where
  | nil (last : Bool) : Layout last []
  | blank {last : Bool} {c : Char} {text : List Char} (h : isBlank c = true)
      (more : Layout last text) : Layout last (c :: text)
  | comment {last : Bool} {body text : List Char} (h : '\n' ∉ body) (more : Layout last text) :
      Layout last ('-' :: '-' :: (body ++ '\n' :: text))
  | lastComment {body : List Char} (h : '\n' ∉ body) : Layout true ('-' :: '-' :: body)

/-- Layout is taken from the front of a text, and nothing of it is lost. -/
theorem append_takeLayout (inComment : Bool) (text : List Char) :
    (takeLayout inComment text).1 ++ (takeLayout inComment text).2 = text := by
  induction text generalizing inComment with
  | nil => rfl
  | cons c rest ih =>
      rw [takeLayout]
      split
      · exact congrArg (c :: ·) (ih _)
      · rfl

/-- What is taken between tokens is layout. Inside a comment the statement is
about the comment as far as it has been read, of which the first dash is already
certain. -/
theorem layout_takeLayout (text : List Char) :
    Layout (takeLayout false text).2.isEmpty (takeLayout false text).1 ∧
      ∀ body, '\n' ∉ body → (body ++ text).head? = some '-' →
        Layout (takeLayout true text).2.isEmpty ('-' :: (body ++ (takeLayout true text).1)) := by
  induction text with
  | nil =>
      refine ⟨.nil _, fun body hBody hDash => ?_⟩
      obtain ⟨more, rfl⟩ := List.head?_eq_some_iff.mp (List.append_nil body ▸ hDash)
      rw [takeLayout, List.append_nil]
      exact .lastComment fun hLine => hBody (List.mem_cons_of_mem _ hLine)
  | cons c rest ih =>
      obtain ⟨hOutside, hInside⟩ := ih
      constructor
      · by_cases hComment : c = '-' ∧ rest.head? = some '-'
        · obtain ⟨rfl, hDash⟩ := hComment
          have hTake : takeLayout false ('-' :: rest) =
              ('-' :: (takeLayout true rest).1, (takeLayout true rest).2) := by
            simp [takeLayout, hDash]
          rw [hTake]
          exact hInside [] List.not_mem_nil hDash
        · have hNoComment : (c == '-' && rest.head? == some '-') = false := by simpa using hComment
          cases hBlank : isBlank c with
          | true =>
              have hTake : takeLayout false (c :: rest) =
                  (c :: (takeLayout false rest).1, (takeLayout false rest).2) := by
                simp [takeLayout, hBlank, hNoComment]
              rw [hTake]
              exact .blank hBlank hOutside
          | false =>
              have hTake : takeLayout false (c :: rest) = ([], c :: rest) := by
                simp [takeLayout, hBlank, hNoComment]
              rw [hTake]
              exact .nil _
      · intro body hBody hDash
        by_cases hLine : c = '\n'
        · subst hLine
          have hTake : takeLayout true ('\n' :: rest) =
              ('\n' :: (takeLayout false rest).1, (takeLayout false rest).2) := by
            simp [takeLayout]
          rw [hTake]
          cases body with
          | nil => cases hDash
          | cons first more =>
              obtain rfl : first = '-' := Option.some.inj hDash
              exact .comment (fun hLine => hBody (List.mem_cons_of_mem _ hLine)) hOutside
        · have hTake : takeLayout true (c :: rest) =
              (c :: (takeLayout true rest).1, (takeLayout true rest).2) := by
            have hStays : (c != '\n') = true := by simpa using hLine
            simp [takeLayout, hStays]
          have hMore := hInside (body ++ [c]) (by simp [hBody, Ne.symm hLine])
            (by rwa [List.append_assoc])
          rw [List.append_assoc, List.singleton_append] at hMore
          rwa [hTake]

theorem append_takeFraction (text : List Char) :
    (takeFraction text).1 ++ (takeFraction text).2 = text := by
  unfold takeFraction
  split
  · dsimp only
    split
    · rfl
    · exact congrArg ('.' :: ·) List.takeWhile_append_dropWhile
  · rfl

theorem append_takeExponent (text : List Char) :
    (takeExponent text).1 ++ (takeExponent text).2 = text := by
  fun_cases takeExponent text with
  | case1 => rfl
  | case2 mark rest sign afterSign digits =>
      have hSign : sign ++ afterSign = rest := by
        refine List.prefix_iff_eq_append.mp ?_
        cases rest with
        | nil => exact List.nil_prefix
        | cons c more =>
            change (if c = '+' ∨ c = '-' then [c] else []) <+: c :: more
            split
            · exact List.prefix_append [c] more
            · exact List.nil_prefix
      change mark :: (sign ++ digits) ++ afterSign.dropWhile Char.isDigit = mark :: rest
      rw [List.cons_append, List.append_assoc, List.takeWhile_append_dropWhile, hSign]
  | case3 => rfl

theorem append_takeName (text : List Char) : (takeName text).1 ++ (takeName text).2 = text := by
  induction text with
  | nil => rfl
  | cons c rest ih =>
      rw [takeName]
      split
      · exact congrArg (c :: ·) ih
      · rfl

/-- What is left over behind a quoted text is the end of the text. -/
theorem suffix_of_unquote {quote : Char} {text body rest : List Char}
    (h : unquote quote text = some (body, rest)) : rest <:+ text := by
  fun_induction unquote quote text generalizing body rest with
  | case1 => cases h
  | case2 c text ih =>
      obtain ⟨⟨read, tail⟩, hRead, hSame⟩ := Option.map_eq_some_iff.mp h
      obtain ⟨-, rfl⟩ := Prod.mk.inj hSame
      exact (ih hRead).trans (List.suffix_append ['\\', c] text)
  | case3 text hEscape =>
      obtain ⟨-, rfl⟩ := Prod.mk.inj (Option.some.inj h)
      exact List.suffix_cons _ _
  | case4 c text hEscape hQuote ih =>
      obtain ⟨⟨read, tail⟩, hRead, hSame⟩ := Option.map_eq_some_iff.mp h
      obtain ⟨-, rfl⟩ := Prod.mk.inj hSame
      exact (ih hRead).trans (List.suffix_cons _ _)

/-- What a reading takes and what it leaves make up what was read. -/
def Reading.Covers (reading : Reading) (text : List Char) : Prop :=
  reading.taken ++ reading.rest = text ∧ reading.taken ≠ []

theorem covers_readNumber {first : Char} (h : first.isDigit = true) (text : List Char) :
    (readNumber (first :: text)).Covers (first :: text) := by
  constructor
  · simp only [readNumber, List.append_assoc, append_takeExponent, append_takeFraction,
      List.takeWhile_append_dropWhile]
  · simp [readNumber, h]

theorem covers_readName (first : Char) (text : List Char) :
    (readName first text).Covers (first :: text) := by
  refine ⟨congrArg (first :: ·) (append_takeName text), List.cons_ne_nil _ _⟩

/-- A quoted text covers both its quotes and what stands between them. -/
theorem covers_readString {quote : Char} {text : List Char} {reading : Reading}
    (h : readString quote text = some reading) : reading.Covers (quote :: text) := by
  obtain ⟨⟨body, rest⟩, hRead, rfl⟩ := Option.map_eq_some_iff.mp h
  obtain ⟨front, rfl⟩ := suffix_of_unquote hRead
  refine ⟨?_, List.cons_ne_nil _ _⟩
  simp

theorem covers_readMark {text : List Char} {reading : Reading} (h : readMark text = some reading) :
    reading.Covers text := by
  revert h
  fun_cases readMark text <;> rintro ⟨⟩ <;> exact ⟨rfl, List.cons_ne_nil _ _⟩

/-- Every token covers the text that was taken for it, whatever its kind. -/
theorem covers_readToken {first : Char} {text : List Char} {reading : Reading}
    (h : readToken first text = .ok reading) : reading.Covers (first :: text) := by
  rw [readToken] at h
  split at h
  · rename_i hDigit
    obtain rfl := Except.ok.inj h
    exact covers_readNumber hDigit text
  split at h
  · split at h
    · rename_i found hString
      obtain rfl := Except.ok.inj h
      exact covers_readString hString
    · cases h
  split at h
  · obtain rfl := Except.ok.inj h
    exact covers_readName first text
  split at h
  · rename_i found hMark
    obtain rfl := Except.ok.inj h
    exact covers_readMark hMark
  · split at h <;> cases h

namespace Position

/-- A place behind two texts is reached through the place behind the first. -/
theorem after_append (place : Position) (first second : List Char) :
    place.after (first ++ second) = (place.after first).after second :=
  List.foldl_append

/-- A place is moved by one for every character. -/
theorem offset_after (place : Position) (text : List Char) :
    (place.after text).offset = place.offset + text.length := by
  induction text generalizing place with
  | nil => rfl
  | cons c rest ih =>
      have hNext : (place.next c).offset = place.offset + 1 := by
        rw [next]
        split <;> rfl
      rw [after, List.foldl_cons, ← after, ih, hNext, List.length_cons]
      omega

/-- The line of a place is told by the ends of lines before it, and its column
by the characters behind the last of these. -/
theorem after_start (text : List Char) :
    start.after text =
      ⟨text.length, 1 + text.count '\n', 1 + (text.reverse.takeWhile (· ≠ '\n')).length⟩ := by
  induction text using List.reverseRecOn with
  | nil => rfl
  | append_singleton text c ih =>
      rw [after_append, ih, after, List.foldl_cons, List.foldl_nil, next]
      by_cases hLine : c = '\n'
      · simp [hLine]
        omega
      · simp [hLine]
        omega

end Position

/-- A text as its tokens, from a place on: layout and a token, again and again,
and then layout up to the end. -/
inductive Tiles : Position → List Char → List Lexeme → Prop where
  | finish {place : Position} {gap : List Char} (h : Layout true gap) :
      Tiles place gap [⟨.endOfInput, place.after gap, ""⟩]
  | token {place : Position} {gap taken rest : List Char} {token : Token} {lexemes : List Lexeme}
      (hGap : Layout false gap) (hTaken : taken ≠ []) (hToken : token ≠ .endOfInput)
      (hRest : Tiles ((place.after gap).after taken) rest lexemes) :
      Tiles place (gap ++ (taken ++ rest))
        (⟨token, place.after gap, String.ofList taken⟩ :: lexemes)

/-- With a budget beyond the characters of a text, the tokens that are read tile
it. -/
theorem tiles_of_scanWithin {budget : Nat} {place : Position} {text : List Char} {tokens : Tokens}
    (hBudget : text.length < budget) (h : scanWithin budget place text = .ok tokens) :
    Tiles place text tokens.toList := by
  induction budget generalizing place text tokens with
  | zero => cases hBudget
  | succ budget ih =>
      have hSplit := append_takeLayout false text
      have hLayout := (layout_takeLayout text).1
      obtain ⟨hEnd, rfl⟩ | ⟨first, rest, reading, more, hRest, hReading, hMore, rfl⟩ :=
        scanWithin_succ_eq_ok h
      · rw [hEnd] at hLayout hSplit
        rw [List.append_nil] at hSplit
        have hTiles : Tiles place (takeLayout false text).1
            (Tokens.toList ⟨[], place.after (takeLayout false text).1⟩) := .finish hLayout
        rw [hSplit] at hTiles ⊢
        exact hTiles
      · rw [hRest] at hLayout hSplit
        obtain ⟨hTaken, hSome⟩ := covers_readToken hReading
        have hShorter : reading.rest.length < budget := by
          have hLength := congrArg List.length hTaken
          have hWhole := congrArg List.length hSplit
          have hPositive := List.length_pos_iff.mpr hSome
          simp only [List.length_append, List.length_cons] at hLength hWhole
          omega
        have hTiles := Tiles.token hLayout hSome (readToken_ne_endOfInput hReading)
          (ih hShorter hMore)
        rwa [hTaken, hSplit] at hTiles

namespace Tiles

variable {place : Position} {text : List Char} {lexemes : List Lexeme}

/-- The end of the text comes last and only there, and every other lexeme has
some text. -/
theorem exists_lexemes (h : Tiles place text lexemes) :
    ∃ front, lexemes = front ++ [⟨.endOfInput, place.after text, ""⟩] ∧
      ∀ lexeme ∈ front, lexeme.token ≠ .endOfInput ∧ lexeme.text ≠ "" := by
  induction h with
  | finish hGap => exact ⟨[], rfl, nofun⟩
  | @token place gap taken rest token lexemes hGap hTaken hToken hRest ih =>
      obtain ⟨front, rfl, hFront⟩ := ih
      refine ⟨⟨token, place.after gap, String.ofList taken⟩ :: front, ?_,
        List.forall_mem_cons.mpr ⟨⟨hToken, by simpa using hTaken⟩, hFront⟩⟩
      rw [Position.after_append, Position.after_append]
      rfl

/-- Every lexeme is at the place behind what is in front of its text. -/
theorem exists_front (h : Tiles place text lexemes) :
    ∀ lexeme ∈ lexemes, ∃ front back, text = front ++ (lexeme.text.toList ++ back) ∧
      lexeme.position = place.after front := by
  induction h with
  | @finish place gap hGap =>
      intro lexeme hLexeme
      obtain rfl := List.mem_singleton.mp hLexeme
      exact ⟨gap, [], by simp, rfl⟩
  | @token place gap taken rest token lexemes hGap hTaken hToken hRest ih =>
      intro lexeme hLexeme
      rcases List.mem_cons.mp hLexeme with rfl | hLater
      · exact ⟨gap, rest, by simp, rfl⟩
      · obtain ⟨front, back, rfl, hPosition⟩ := ih lexeme hLater
        refine ⟨gap ++ (taken ++ front), back, by simp, ?_⟩
        rw [hPosition, Position.after_append, Position.after_append]

/-- No lexeme begins before the one in front of it ends. -/
theorem pairwise_offsets (h : Tiles place text lexemes) :
    lexemes.Pairwise fun a b => a.position.offset + a.text.length ≤ b.position.offset := by
  induction h with
  | finish hGap => exact List.pairwise_singleton _ _
  | token hGap hTaken hToken hRest ih =>
      refine List.pairwise_cons.mpr ⟨fun lexeme hLexeme => ?_, ih⟩
      obtain ⟨front, back, _, hPosition⟩ := hRest.exists_front lexeme hLexeme
      simp only [hPosition, Position.offset_after, String.length_ofList]
      omega

end Tiles

/-- What a lexeme says about its place: its text is found there, its line is
told by the ends of lines before it, and its column by the characters behind the
last of these. -/
structure Lexeme.LocatedIn (text : List Char) (lexeme : Lexeme) : Prop where
  slice : (text.drop lexeme.position.offset).take lexeme.text.length = lexeme.text.toList
  line : lexeme.position.line = 1 + (text.take lexeme.position.offset).count '\n'
  column : lexeme.position.column =
    1 + ((text.take lexeme.position.offset).reverse.takeWhile (· ≠ '\n')).length

theorem Tiles.locatedIn {text : List Char} {lexemes : List Lexeme}
    (h : Tiles .start text lexemes) : ∀ lexeme ∈ lexemes, lexeme.LocatedIn text := by
  intro lexeme hLexeme
  obtain ⟨front, back, rfl, hPosition⟩ := h.exists_front lexeme hLexeme
  rw [Position.after_start] at hPosition
  constructor
  · rw [hPosition, List.drop_left, ← String.length_toList, List.take_left]
  · rw [hPosition, List.take_left]
  · rw [hPosition, List.take_left]

/-- The stretches of a text in front of lexemes, from an offset on: one for
each, between the end of the lexeme before it and its own beginning. -/
def gapsBefore (text : List Char) : Nat → List Lexeme → List (List Char)
  | _, [] => []
  | offset, lexeme :: rest =>
      (text.drop offset).take (lexeme.position.offset - offset) ::
        gapsBefore text (lexeme.position.offset + lexeme.text.length) rest

/-- Between the lexemes there is layout, and with it they make up the text. -/
theorem Tiles.gaps {place : Position} {before text : List Char} {lexemes : List Lexeme}
    (h : Tiles place text lexemes) (hPlace : place.offset = before.length) :
    (∃ gaps last, gapsBefore (before ++ text) place.offset lexemes = gaps ++ [last] ∧
      (∀ gap ∈ gaps, Layout false gap) ∧ Layout true last) ∧
    (List.zipWith (fun gap lexeme => gap ++ lexeme.text.toList)
      (gapsBefore (before ++ text) place.offset lexemes) lexemes).flatten = text := by
  induction h generalizing before with
  | @finish place gap hGap =>
      have hGaps : gapsBefore (before ++ gap) place.offset
          [⟨.endOfInput, place.after gap, ""⟩] = [gap] := by
        simp [gapsBefore, Position.offset_after, hPlace]
      rw [hGaps]
      exact ⟨⟨[], gap, rfl, nofun, hGap⟩, by simp⟩
  | @token place gap taken rest token lexemes hGap hTaken hToken hRest ih =>
      have hNext : ((place.after gap).after taken).offset = (before ++ (gap ++ taken)).length := by
        simp [Position.offset_after, hPlace, Nat.add_assoc]
      have hWhole : before ++ (gap ++ taken) ++ rest = before ++ (gap ++ (taken ++ rest)) := by
        simp
      obtain ⟨⟨gaps, last, hMore, hGaps, hLast⟩, hText⟩ := ih hNext
      rw [hWhole] at hMore hText
      have hHere : gapsBefore (before ++ (gap ++ (taken ++ rest))) place.offset
          (⟨token, place.after gap, String.ofList taken⟩ :: lexemes) =
            gap :: gapsBefore (before ++ (gap ++ (taken ++ rest)))
              ((place.after gap).after taken).offset lexemes := by
        simp [gapsBefore, Position.offset_after, hPlace]
      rw [hHere]
      refine ⟨⟨gap :: gaps, last, by rw [hMore]; rfl, List.forall_mem_cons.mpr ⟨hGap, hGaps⟩,
        hLast⟩, ?_⟩
      rw [List.zipWith_cons_cons, List.flatten_cons, hText]
      simp

/-- The tokens of a text lose nothing of it and tell where they stand. The end
of the text comes last, every other token has a text, which is the one at its
offset, no two overlap, and what is between them is layout; with it they make up
the whole text. -/
theorem Tokens.cover_text {text : String} {tokens : Tokens} (h : scan text = .ok tokens) :
    (∃ finish : Position, tokens.toList = tokens.lexemes ++ [⟨.endOfInput, finish, ""⟩] ∧
      finish.offset = text.length) ∧
    (∀ lexeme ∈ tokens.lexemes, lexeme.token ≠ .endOfInput ∧ lexeme.text ≠ "") ∧
    (∀ lexeme ∈ tokens.toList, lexeme.LocatedIn text.toList) ∧
    tokens.toList.Pairwise (fun a b => a.position.offset + a.text.length ≤ b.position.offset) ∧
    (∃ gaps last, gapsBefore text.toList 0 tokens.toList = gaps ++ [last] ∧
      (∀ gap ∈ gaps, Layout false gap) ∧ Layout true last) ∧
    (List.zipWith (fun gap lexeme => gap ++ lexeme.text.toList)
      (gapsBefore text.toList 0 tokens.toList) tokens.toList).flatten = text.toList := by
  have hTiles : Tiles .start text.toList tokens.toList :=
    tiles_of_scanWithin (Nat.lt_succ_self _) h
  obtain ⟨front, hLexemes, hFront⟩ := hTiles.exists_lexemes
  obtain ⟨hInit, hLast⟩ := List.append_inj' hLexemes rfl
  have hGaps := @Tiles.gaps .start [] text.toList tokens.toList hTiles rfl
  refine ⟨⟨tokens.finish, rfl, ?_⟩, fun lexeme hLexeme => hFront lexeme (hInit ▸ hLexeme),
    hTiles.locatedIn, hTiles.pairwise_offsets, hGaps⟩
  obtain ⟨-, hFinish, -⟩ := Lexeme.mk.inj (List.singleton_inj.mp hLast)
  rw [hFinish, Position.after_start]
  exact String.length_toList

/-- Tokens over three lines: one ends with a comment, the next with a line end
inside quotes. -/
def Tokens.multiline : Tokens :=
  ⟨[⟨.identifier "a", ⟨0, 1, 1⟩, "a"⟩, ⟨.string "x\ny", ⟨7, 2, 1⟩, "'x\ny'"⟩,
    ⟨.number "2e3", ⟨13, 3, 4⟩, "2E3"⟩], ⟨19, 3, 10⟩⟩

/-- A comment, a text over two lines and a number lie in their text, with layout
between them. -/
theorem Tokens.cover_text_multiline :
    scan "a -- b\n'x\ny' 2E3 --" = .ok multiline ∧
    (∀ lexeme ∈ multiline.toList, lexeme.LocatedIn "a -- b\n'x\ny' 2E3 --".toList) ∧
    ∃ gaps last, gapsBefore "a -- b\n'x\ny' 2E3 --".toList 0 multiline.toList = gaps ++ [last] ∧
      (∀ gap ∈ gaps, Layout false gap) ∧ Layout true last := by
  have hScan : scan "a -- b\n'x\ny' 2E3 --" = .ok multiline := rfl
  obtain ⟨_, _, hLocated, _, hGaps, _⟩ := cover_text hScan
  exact ⟨hScan, hLocated, hGaps⟩

end DocQuery.Grammar
