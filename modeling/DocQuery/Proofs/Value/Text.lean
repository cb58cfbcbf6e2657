import DocQuery.Proofs.Number.Numeral
import DocQuery.Value.Json
import DocQuery.Value.Order

/-! Values on one line as JSON. Every such text ends itself: whatever follows
it, provided that this does not go on with a number, the value and the rest can
be told from the whole. In particular two values have the same text only if they
are the same. -/
namespace DocQuery

namespace Number

/-- The characters that numbers are written with. -/
def isNumberChar (c : Char) : Bool :=
  c.isDigit || c == '.' || c == 'e' || c == '+' || c == '-'

theorem isNumberChar_of_isDigit {c : Char} (h : c.isDigit = true) : isNumberChar c = true := by
  simp [isNumberChar, h]

theorem isNumberChar_of_mem_text (n : Numeral) {c : Char} (h : c ∈ n.text) :
    isNumberChar c = true := by
  rcases List.mem_append.mp h with hWhole | hTail
  · exact isNumberChar_of_isDigit (n.whole.isDigit c hWhole)
  rcases List.mem_append.mp hTail with hFraction | hExponent
  · by_cases hEmpty : n.fraction.toList = []
    · simp [Numeral.fractionText, hEmpty] at hFraction
    · simp only [Numeral.fractionText, hEmpty, if_false, List.mem_cons] at hFraction
      rcases hFraction with rfl | hDigit
      · rfl
      · exact isNumberChar_of_isDigit (n.fraction.isDigit c hDigit)
  · cases hCase : n.exponent with
    | none => simp [Numeral.exponentText, hCase] at hExponent
    | some exponent =>
        obtain ⟨sign, digits⟩ := exponent
        simp only [Numeral.exponentText, hCase, List.mem_cons, List.mem_append] at hExponent
        rcases hExponent with rfl | hSign | hDigit
        · rfl
        · cases sign <;> simp [ExponentSign.text] at hSign <;> rw [hSign] <;> rfl
        · exact isNumberChar_of_isDigit (digits.isDigit c hDigit)

theorem isDigit_of_mem_toDigits {n : Nat} {c : Char} (h : c ∈ Nat.toDigits 10 n) :
    c.isDigit = true :=
  Nat.isDigit_of_mem_toDigits (by decide) (by decide) h

theorem toDigits_injective {m n : Nat} (h : Nat.toDigits 10 m = Nat.toDigits 10 n) : m = n := by
  rw [← Decimal.value_toDigits m, h, Decimal.value_toDigits]

/-- A numeral with a fraction or an exponent has a character that is no
digit. -/
theorem exists_mem_text_of_isReal {n : Numeral} (h : n.IsReal) :
    ∃ c ∈ n.text, c.isDigit = false := by
  rcases h with hFraction | hExponent
  · exact ⟨'.', by simp [Numeral.text, Numeral.fractionText, hFraction], rfl⟩
  · obtain ⟨exponent, hSome⟩ := Option.isSome_iff_exists.mp hExponent
    exact ⟨'e', by simp [Numeral.text, Numeral.exponentText, hSome], rfl⟩

/-- A number in writing without its sign. -/
inductive Unsigned : Number → List Char → Prop where
  | integer (n : Int) : Unsigned (.integer n) (Nat.toDigits 10 n.natAbs)
  | real {x : Double} {n : Numeral} : n.IsReal →
      Double.ofDecimal? x.negative n.decimal = some x → Unsigned (.real x) n.text

def isNegative : Number → Bool
  | .integer n => n < 0
  | .real x => x.negative

theorem exists_unsigned (n : Number) :
    ∃ text, Unsigned n text ∧ n.render = if n.isNegative then '-' :: text else text := by
  cases n with
  | integer n =>
      exact ⟨_, .integer n, by simp [render, Decimal.renderInteger, isNegative]⟩
  | real x =>
      obtain ⟨numeral, hText, hReal, hReads⟩ := Double.exists_numeral_render style x
      refine ⟨_, .real hReal hReads, ?_⟩
      rw [render, Double.render, hText]
      rfl

theorem Unsigned.isDigit_of_head? {n : Number} {text : List Char} (h : Unsigned n text) :
    ∃ c rest, text = c :: rest ∧ c.isDigit = true := by
  cases h with
  | integer n =>
      obtain ⟨c, rest, hText⟩ :=
        List.exists_cons_of_ne_nil (Nat.toDigits_ne_nil (n := n.natAbs) (b := 10))
      exact ⟨c, rest, hText, isDigit_of_mem_toDigits (hText ▸ List.mem_cons_self)⟩
  | @real x numeral _ _ =>
      have hText : numeral.text ≠ [] := by simp [Numeral.text, numeral.whole_ne_nil]
      obtain ⟨c, rest, hCons⟩ := List.exists_cons_of_ne_nil hText
      exact ⟨c, rest, hCons, @Numeral.isDigit_of_head? numeral [] c (by simp [hCons])⟩

theorem Unsigned.isNumberChar {n : Number} {text : List Char} (h : Unsigned n text) :
    ∀ c ∈ text, isNumberChar c = true := by
  intro c hc
  cases h with
  | integer n => exact isNumberChar_of_isDigit (isDigit_of_mem_toDigits hc)
  | real _ _ => exact isNumberChar_of_mem_text _ hc

/-- The sign and the text behind it tell the number. -/
theorem Unsigned.unique {a b : Number} {text : List Char} (ha : Unsigned a text)
    (hb : Unsigned b text) (hSign : a.isNegative = b.isNegative) : a = b := by
  generalize hText : text = other at hb
  cases ha with
  | integer m =>
      cases hb with
      | integer n =>
          have hSize := toDigits_injective hText
          have hBelow : m < 0 ↔ n < 0 := by simpa [isNegative] using hSign
          congr 1
          omega
      | real hReal _ =>
          obtain ⟨c, hc, hOther⟩ := exists_mem_text_of_isReal hReal
          rw [← hText] at hc
          rw [isDigit_of_mem_toDigits hc] at hOther
          cases hOther
  | @real x m hReal hReads =>
      generalize hSame : m.text = same at hText
      cases hb with
      | integer n =>
          obtain ⟨c, hc, hOther⟩ := exists_mem_text_of_isReal hReal
          rw [hSame, hText] at hc
          rw [isDigit_of_mem_toDigits hc] at hOther
          cases hOther
      | @real y n _ hOther =>
          have hDecimal : m.decimal = n.decimal := by
            have hRead := Decimal.ofText?_text m
            rw [hSame, hText, Decimal.ofText?_text n] at hRead
            exact (Option.some.inj hRead).symm
          have hNegative : x.negative = y.negative := hSign
          rw [hDecimal, hNegative, hOther] at hReads
          rw [Option.some.inj hReads]

theorem isNumberChar_of_mem_render (n : Number) : ∀ c ∈ n.render, isNumberChar c = true := by
  obtain ⟨text, hText, hRender⟩ := n.exists_unsigned
  intro c hc
  rw [hRender] at hc
  split at hc
  · rcases List.mem_cons.mp hc with rfl | hc
    · rfl
    · exact hText.isNumberChar c hc
  · exact hText.isNumberChar c hc

theorem exists_cons_render (n : Number) :
    ∃ c rest, n.render = c :: rest ∧ (c = '-' ∨ c.isDigit = true) := by
  obtain ⟨text, hText, hRender⟩ := n.exists_unsigned
  obtain ⟨c, rest, hCons, hDigit⟩ := hText.isDigit_of_head?
  rw [hRender]
  split
  · exact ⟨'-', text, rfl, .inl rfl⟩
  · exact ⟨c, rest, hCons, .inr hDigit⟩

theorem render_injective {a b : Number} (h : a.render = b.render) : a = b := by
  obtain ⟨first, hFirst, hRenderA⟩ := a.exists_unsigned
  obtain ⟨second, hSecond, hRenderB⟩ := b.exists_unsigned
  obtain ⟨c, restA, hConsA, hDigitA⟩ := hFirst.isDigit_of_head?
  obtain ⟨d, restB, hConsB, hDigitB⟩ := hSecond.isDigit_of_head?
  rw [hRenderA, hRenderB] at h
  have hMinus : '-'.isDigit = false := rfl
  cases hA : a.isNegative <;> cases hB : b.isNegative <;>
    simp only [hA, hB, Bool.false_eq_true, if_true, if_false] at h
  · exact hFirst.unique (h ▸ hSecond) (hA.trans hB.symm)
  · rw [hConsA] at h
    have hHead : c = '-' := (List.cons.inj h).1
    rw [hHead, hMinus] at hDigitA
    cases hDigitA
  · rw [hConsB] at h
    have hHead : '-' = d := (List.cons.inj h).1
    rw [← hHead, hMinus] at hDigitB
    cases hDigitB
  · exact hFirst.unique ((List.cons.inj h).2 ▸ hSecond) (hA.trans hB.symm)

theorem render_cancel {a b : Number} {r s : List Char} (hr : Text.StopsAt isNumberChar r)
    (hs : Text.StopsAt isNumberChar s) (h : a.render ++ r = b.render ++ s) : a = b ∧ r = s := by
  have hText : a.render = b.render := by
    rw [← Text.takeWhile_append_of_stopsAt a.isNumberChar_of_mem_render hr, h,
      Text.takeWhile_append_of_stopsAt b.isNumberChar_of_mem_render hs]
  exact ⟨render_injective hText, List.append_cancel_left (hText ▸ h)⟩

end Number

namespace Value

/-- The character that a backslash and `c` stand for. -/
def unescape (c : Char) : Char :=
  if c = 'n' then '\n' else if c = 'r' then '\r' else if c = 't' then '\t'
  else if c = 'b' then '\x08' else if c = 'f' then '\x0c' else c

/-- The value of a hexadecimal digit in small letters. -/
def hexValue (c : Char) : Nat :=
  if c.isDigit then c.toNat - '0'.toNat else c.toNat - 'a'.toNat + 10

/-- Reads one character of a quoted text, and gives what is behind it. There is
none at the closing quote. -/
def readChar : List Char → Option (Char × List Char)
  | '\\' :: 'u' :: '0' :: '0' :: high :: low :: rest =>
      some (Char.ofNat (16 * hexValue high + hexValue low), rest)
  | '\\' :: c :: rest => some (unescape c, rest)
  | c :: rest => if c = '"' then none else some (c, rest)
  | [] => none

theorem hexValue_digitChar :
    ∀ n < 32, 16 * hexValue (Nat.digitChar (n / 16)) + hexValue (Nat.digitChar (n % 16)) = n := by
  decide

theorem readChar_escape (c : Char) (rest : List Char) :
    readChar (escape c ++ rest) = some (c, rest) := by
  by_cases hShort : c = '"' ∨ c = '\\' ∨ c = '\n' ∨ c = '\r' ∨ c = '\t' ∨ c = '\x08' ∨ c = '\x0c'
  · rcases hShort with rfl | rfl | rfl | rfl | rfl | rfl | rfl <;> rfl
  simp only [not_or] at hShort
  obtain ⟨hQuote, hBackslash, hLine, hReturn, hTab, hBack, hPage⟩ := hShort
  by_cases hControl : c.toNat < 32
  · simp only [escape, hQuote, hBackslash, hLine, hReturn, hTab, hBack, hPage, or_self, if_false,
      hControl, if_true, List.cons_append, List.nil_append, readChar,
      hexValue_digitChar c.toNat hControl, Char.ofNat_toNat]
  · simp only [escape, hQuote, hBackslash, hLine, hReturn, hTab, hBack, hPage, or_self, if_false,
      hControl, List.cons_append, List.nil_append]
    rw [readChar.eq_3 c rest (by simp [hBackslash]) (by simp [hBackslash]), if_neg hQuote]

theorem escapes_cancel {s t : List Char} {q r : List Char}
    (h : s.flatMap escape ++ '"' :: q = t.flatMap escape ++ '"' :: r) : s = t ∧ q = r := by
  have hEnd (rest : List Char) : readChar ('"' :: rest) = none := rfl
  induction s generalizing t with
  | nil =>
      cases t with
      | nil => exact ⟨rfl, (List.cons.inj h).2⟩
      | cons d t =>
          have hRead := congrArg readChar h
          rw [List.flatMap_cons, List.append_assoc, readChar_escape] at hRead
          cases (hEnd q).symm.trans hRead
  | cons c s ih =>
      have hRead := congrArg readChar h
      rw [List.flatMap_cons, List.append_assoc, readChar_escape] at hRead
      cases t with
      | nil => cases hRead.trans (hEnd r)
      | cons d t =>
          rw [List.flatMap_cons, List.append_assoc, readChar_escape] at hRead
          obtain ⟨hChar, hRest⟩ := Prod.mk.inj (Option.some.inj hRead)
          obtain ⟨hText, hBehind⟩ := ih hRest
          exact ⟨by rw [hChar, hText], hBehind⟩

theorem quote_cancel {s t : String} {q r : List Char}
    (h : (quote s).toList ++ q = (quote t).toList ++ r) : s = t ∧ q = r := by
  simp only [quote, String.toList_ofList, List.cons_append, List.append_assoc, List.nil_append,
    List.cons.injEq, true_and] at h
  obtain ⟨hText, hRest⟩ := escapes_cancel h
  exact ⟨String.toList_injective hText, hRest⟩

/-- Texts one behind the other, each after a comma. -/
def behindCommas {α : Type} (text : α → List Char) (items : List α) : List Char :=
  items.flatMap fun item => ',' :: text item

theorem intercalate_map_cons {α : Type} (text : α → List Char) (item : α) (rest : List α) :
    [','].intercalate ((item :: rest).map text) = text item ++ behindCommas text rest := by
  induction rest generalizing item with
  | nil => simp [behindCommas]
  | cons next rest ih =>
      rw [List.map_cons, List.map_cons, List.intercalate_cons_cons, ← List.map_cons, ih]
      simp [behindCommas]

/-- Things are told from texts if what follows such a text does not go on with a
number. -/
def Cancels {α : Type} (text : α → List Char) (item : α) : Prop :=
  ∀ (other : α) (r s : List Char), Text.StopsAt Number.isNumberChar r →
    Text.StopsAt Number.isNumberChar s → text item ++ r = text other ++ s → item = other ∧ r = s

section Members

variable {α : Type} {text : α → List Char} {close : Char}

theorem stopsAt_behindCommas (hClose : Number.isNumberChar close = false) (items : List α)
    (rest : List Char) :
    Text.StopsAt Number.isNumberChar (behindCommas text items ++ close :: rest) := by
  cases items with
  | nil => exact Text.stopsAt_cons hClose rest
  | cons item items => exact Text.stopsAt_cons rfl _

theorem behindCommas_cancel (hClose : Number.isNumberChar close = false) (hComma : close ≠ ',')
    {xs ys : List α} (hCancels : ∀ x ∈ xs, Cancels text x) {r s : List Char}
    (h : behindCommas text xs ++ close :: r = behindCommas text ys ++ close :: s) :
    xs = ys ∧ r = s := by
  induction xs generalizing ys with
  | nil =>
      cases ys with
      | nil => exact ⟨rfl, (List.cons.inj h).2⟩
      | cons y ys => exact absurd (List.cons.inj h).1 hComma
  | cons x xs ih =>
      cases ys with
      | nil => exact absurd (List.cons.inj h).1.symm hComma
      | cons y ys =>
          simp only [behindCommas, List.flatMap_cons, List.cons_append, List.append_assoc,
            List.cons.injEq, true_and] at h
          obtain ⟨hItem, hRest⟩ := hCancels x List.mem_cons_self y _ _
            (stopsAt_behindCommas hClose xs r) (stopsAt_behindCommas hClose ys s) h
          obtain ⟨hItems, hEnd⟩ :=
            ih (fun z hz => hCancels z (List.mem_cons_of_mem x hz)) hRest
          exact ⟨by rw [hItem, hItems], hEnd⟩

/-- Members between brackets are told from the whole text, if none of them
begins with the closing bracket. -/
theorem members_cancel (hClose : Number.isNumberChar close = false) (hComma : close ≠ ',')
    (hBegins : ∀ (x : α) (rest : List Char), (text x ++ rest).head? ≠ some close)
    {xs ys : List α} (hCancels : ∀ x ∈ xs, Cancels text x) {r s : List Char}
    (h : [','].intercalate (xs.map text) ++ close :: r =
      [','].intercalate (ys.map text) ++ close :: s) : xs = ys ∧ r = s := by
  cases xs with
  | nil =>
      cases ys with
      | nil => exact ⟨rfl, (List.cons.inj h).2⟩
      | cons y ys =>
          rw [intercalate_map_cons, List.append_assoc] at h
          exact absurd (congrArg List.head? h).symm (hBegins y _)
  | cons x xs =>
      cases ys with
      | nil =>
          rw [intercalate_map_cons, List.append_assoc] at h
          exact absurd (congrArg List.head? h) (hBegins x _)
      | cons y ys =>
          rw [intercalate_map_cons, intercalate_map_cons, List.append_assoc, List.append_assoc] at h
          obtain ⟨hItem, hRest⟩ := hCancels x List.mem_cons_self y _ _
            (stopsAt_behindCommas hClose xs r) (stopsAt_behindCommas hClose ys s) h
          obtain ⟨hItems, hEnd⟩ := behindCommas_cancel hClose hComma
            (fun z hz => hCancels z (List.mem_cons_of_mem x hz)) hRest
          exact ⟨by rw [hItem, hItems], hEnd⟩

end Members

def line (value : Value) : List Char :=
  value.compact.toList

def fieldLine (field : String × Value) : List Char :=
  (quote field.1).toList ++ ':' :: field.2.line

theorem line_array (items : List Value) :
    line (.array items) = '[' :: ([','].intercalate (items.map line) ++ [']']) := by
  have hItems : (compactItems items).map String.toList = items.map line := by
    induction items with
    | nil => rfl
    | cons item rest ih => rw [compactItems, List.map_cons, List.map_cons, ih]; rfl
  simp [line, compact, String.toList_intercalate, hItems]

theorem line_object (fields : List (String × Value)) :
    line (.object fields) = '\x7b' :: ([','].intercalate (fields.map fieldLine) ++ ['\x7d']) := by
  have hFields : (compactFields fields).map String.toList = fields.map fieldLine := by
    induction fields with
    | nil => rfl
    | cons field rest ih =>
        rw [compactFields, List.map_cons, List.map_cons, ih]
        simp [fieldLine, line]
  simp [line, compact, String.toList_intercalate, hFields]

/-- The rank of the values whose text begins with a character. -/
def rankOfHead (c : Char) : Option Nat :=
  if c = 'n' then some 0
  else if c = 't' ∨ c = 'f' then some 1
  else if c = '-' ∨ c.isDigit then some 2
  else if c = '"' then some 3
  else if c = '[' then some 4
  else if c = '\x7b' then some 5
  else none

theorem rankOfHead_line (value : Value) :
    ∃ c rest, value.line = c :: rest ∧ rankOfHead c = some value.rank := by
  cases value with
  | null => exact ⟨'n', _, rfl, rfl⟩
  | bool b =>
      cases b with
      | false => exact ⟨'f', _, rfl, rfl⟩
      | true => exact ⟨'t', _, rfl, rfl⟩
  | number n =>
      obtain ⟨c, rest, hCons, hHead⟩ := n.exists_cons_render
      refine ⟨c, rest, by simp [line, compact, hCons], ?_⟩
      have hOther : ∀ d : Char, d ≠ '-' → d.isDigit = false → c ≠ d := by
        rintro d hMinus hDigit rfl
        rcases hHead with rfl | hHead
        · exact hMinus rfl
        · rw [hDigit] at hHead
          cases hHead
      simp only [rankOfHead, hOther 'n' (by decide) rfl, hOther 't' (by decide) rfl,
        hOther 'f' (by decide) rfl, or_self, if_false, hHead, if_true, rank]
  | string s => exact ⟨'"', _, String.toList_ofList, rfl⟩
  | array items => exact ⟨'[', _, line_array items, rfl⟩
  | object fields => exact ⟨'\x7b', _, line_object fields, rfl⟩

theorem rank_eq_of_line_append {a b : Value} {r s : List Char} (h : a.line ++ r = b.line ++ s) :
    a.rank = b.rank := by
  obtain ⟨c, restA, hA, hRankA⟩ := a.rankOfHead_line
  obtain ⟨d, restB, hB, hRankB⟩ := b.rankOfHead_line
  rw [hA, hB] at h
  have hHead : c = d := (List.cons.inj h).1
  rw [hHead, hRankB] at hRankA
  exact (Option.some.inj hRankA).symm

/-- A closing bracket begins no value. -/
theorem head?_line_append {close : Char} (hClose : rankOfHead close = none) (value : Value)
    (rest : List Char) : (value.line ++ rest).head? ≠ some close := by
  obtain ⟨c, tail, hCons, hRank⟩ := value.rankOfHead_line
  rw [hCons]
  rintro ⟨⟩
  rw [hClose] at hRank
  cases hRank

theorem fieldLine_cancels {field : String × Value} (h : Cancels line field.2) :
    Cancels fieldLine field := by
  intro other r s hr hs hText
  simp only [fieldLine, List.append_assoc, List.cons_append] at hText
  obtain ⟨hName, hRest⟩ := quote_cancel hText
  obtain ⟨hValue, hEnd⟩ := h other.2 r s hr hs (List.cons.inj hRest).2
  exact ⟨Prod.ext hName hValue, hEnd⟩

theorem head?_fieldLine_append (field : String × Value) (rest : List Char) :
    (fieldLine field ++ rest).head? ≠ some '\x7d' := by
  simp [fieldLine, quote]

mutual

/-- What follows a value can be told from the value, at every depth. -/
theorem line_cancels (value : Value) : Cancels line value := by
  intro other r s hr hs h
  have hRank := rank_eq_of_line_append h
  revert h
  match value, other, hRank with
  | .null, .null, _ => exact fun h => ⟨rfl, List.append_cancel_left h⟩
  | .bool b, .bool d, _ =>
      intro h
      cases b <;> cases d
      · exact ⟨rfl, List.append_cancel_left h⟩
      · exact absurd (List.cons.inj h).1 (by decide)
      · exact absurd (List.cons.inj h).1 (by decide)
      · exact ⟨rfl, List.append_cancel_left h⟩
  | .number m, .number n, _ =>
      intro h
      simp only [line, compact, String.toList_ofList] at h
      obtain ⟨hNumber, hRest⟩ := Number.render_cancel hr hs h
      exact ⟨congrArg Value.number hNumber, hRest⟩
  | .string first, .string second, _ =>
      intro h
      obtain ⟨hText, hRest⟩ := quote_cancel h
      exact ⟨congrArg Value.string hText, hRest⟩
  | .array xs, .array ys, _ =>
      intro h
      simp only [line_array, List.cons_append, List.append_assoc, List.nil_append,
        List.cons.injEq, true_and] at h
      obtain ⟨hItems, hRest⟩ :=
        members_cancel rfl (by decide) (head?_line_append rfl) (lines_cancel xs) h
      exact ⟨congrArg Value.array hItems, hRest⟩
  | .object xs, .object ys, _ =>
      intro h
      simp only [line_object, List.cons_append, List.append_assoc, List.nil_append,
        List.cons.injEq, true_and] at h
      obtain ⟨hFields, hRest⟩ :=
        members_cancel rfl (by decide) head?_fieldLine_append (fieldLines_cancel xs) h
      exact ⟨congrArg Value.object hFields, hRest⟩

theorem lines_cancel (items : List Value) : ∀ item ∈ items, Cancels line item := by
  cases items with
  | nil => simp
  | cons item rest => exact List.forall_mem_cons.mpr ⟨line_cancels item, lines_cancel rest⟩

theorem fieldLines_cancel (fields : List (String × Value)) :
    ∀ field ∈ fields, Cancels fieldLine field := by
  cases fields with
  | nil => simp
  | cons field rest =>
      obtain ⟨name, value⟩ := field
      exact List.forall_mem_cons.mpr
        ⟨fieldLine_cancels (line_cancels value), fieldLines_cancel rest⟩

end

/-- A value is known by its text. -/
theorem compact_injective {a b : Value} (h : a.compact = b.compact) : a = b := by
  have hLine : a.line ++ [] = b.line ++ [] := by rw [line, line, h]
  exact (a.line_cancels b [] [] (Text.stopsAt_nil _) (Text.stopsAt_nil _) hLine).1

end Value

end DocQuery
