import DocQuery.Proofs.Grammar.Reads
import DocQuery.Proofs.Grammar.Scan
import DocQuery.Proofs.Query.WellFormed
import DocQuery.Query.Canonical

/-! The tokens of canonical texts. A piece of text either ends by itself, as
quoted texts and brackets do, or needs a delimiter behind it, as words and
numbers do; pieces of both kinds are put together here up to whole queries. -/
namespace DocQuery

namespace Grammar

/-- A text is read as these tokens whatever follows it. -/
def ScansFreely (text : List Char) (tokens : List Token) : Prop :=
  ∀ rest more, Scans rest more → Scans (text ++ rest) (tokens ++ more)

/-- A text is read as these tokens if a delimiter follows it, or nothing. -/
def ScansAs (text : List Char) (tokens : List Token) : Prop :=
  ∀ rest more, Delimited rest → Scans rest more → Scans (text ++ rest) (tokens ++ more)

/-- A text that is empty or begins with a delimiter, so that it can follow a
word. -/
def Opens (text : List Char) : Prop :=
  ∀ rest, Delimited rest → Delimited (text ++ rest)

theorem opens_nil : Opens [] :=
  fun _ h => h

theorem opens_cons {c : Char} (h : isDelimiter c = true) (text : List Char) : Opens (c :: text) :=
  fun rest _ => delimited_cons h (text ++ rest)

/-- Two texts open with what the first of them opens with, or with the second if
there is no first. -/
theorem Opens.append {first second : List Char} (hFirst : Opens first) (hSecond : Opens second) :
    Opens (first ++ second) := by
  intro rest hRest
  rw [List.append_assoc]
  exact hFirst _ (hSecond _ hRest)

namespace ScansFreely

variable {first second : List Char} {tokens others : List Token}

/-- A text that is scanned in front of everything is scanned in front of what
ends a token. -/
theorem toScansAs (h : ScansFreely first tokens) : ScansAs first tokens :=
  fun rest more _ hScans => h rest more hScans

/-- Texts that need nothing behind them are scanned one after the other. -/
theorem append (hFirst : ScansFreely first tokens) (hSecond : ScansFreely second others) :
    ScansFreely (first ++ second) (tokens ++ others) := by
  intro rest more hScans
  rw [List.append_assoc, List.append_assoc]
  exact hFirst _ _ (hSecond _ _ hScans)

/-- A text that needs nothing behind it may stand in front of any other. -/
theorem append_as (hFirst : ScansFreely first tokens) (hSecond : ScansAs second others) :
    ScansAs (first ++ second) (tokens ++ others) := by
  intro rest more hRest hScans
  rw [List.append_assoc, List.append_assoc]
  exact hFirst _ _ (hSecond _ _ hRest hScans)

theorem quote (text : String) : ScansFreely (Text.quote text).toList [.string text] :=
  fun _ _ hScans => hScans.quote text

theorem blank : ScansFreely [' '] [] :=
  fun _ _ hScans => hScans.blank (by decide)

/-- A mark that is never the beginning of another. -/
theorem mark (m : Mark) (h : ∀ c, m.endsBefore c = true) :
    ScansFreely m.spelling.toList [.mark m] :=
  fun _ _ hScans => hScans.mark m fun c _ => h c

end ScansFreely

namespace ScansAs

variable {first second : List Char} {tokens others : List Token}

theorem nil : ScansAs [] [] :=
  fun _ _ _ hScans => hScans

/-- A text is scanned in front of another one that begins with what ends a
token. -/
theorem append (hFirst : ScansAs first tokens) (hSecond : ScansAs second others)
    (hOpens : Opens second) : ScansAs (first ++ second) (tokens ++ others) := by
  intro rest more hRest hScans
  rw [List.append_assoc, List.append_assoc]
  exact hFirst _ _ (hOpens _ hRest) (hSecond _ _ hRest hScans)

/-- A blank behind a piece ends it. -/
theorem closed (h : ScansAs first tokens) : ScansFreely (first ++ [' ']) tokens := by
  intro rest more hScans
  rw [List.append_assoc]
  exact h _ _ (delimited_cons (by decide) rest) (ScansFreely.blank rest more hScans)

theorem keyword (k : Keyword) : ScansAs k.word.toList [.keyword k] :=
  fun _ _ hRest hScans => hScans.keyword hRest k

theorem mark (m : Mark) : ScansAs m.spelling.toList [.mark m] :=
  fun _ _ hRest hScans => hScans.mark m fun c hc => m.endsBefore_of_isDelimiter (hRest c hc)

theorem numeral (n : Numeral) : ScansAs n.text [.number (String.ofList n.text)] :=
  fun _ _ hRest hScans => hScans.numeral hRest n

/-- A number with the minus sign that may stand before it. -/
theorem signed (negative : Bool) (n : Numeral) :
    ScansAs (if negative then '-' :: n.text else n.text)
      ((if negative then [.mark .minus] else []) ++ [.number (String.ofList n.text)]) := by
  cases negative with
  | false => exact numeral n
  | true =>
      intro rest more hRest hScans
      refine (hScans.numeral hRest n).mark .minus fun c hc => ?_
      have hDigit := n.isDigit_of_head? hc
      by_cases hMinus : c = '-'
      · rw [hMinus] at hDigit
        exact absurd hDigit (by decide)
      · simpa [Mark.endsBefore] using hMinus

/-- A word that is no keyword. -/
theorem identifier {word : String} (hNone : Keyword.ofWord? word = none)
    (hWord : isWord word = true) : ScansAs word.toList [.identifier word] := by
  intro rest others hRest hScans
  have hRead := hScans.word hRest hWord
  simpa [wordToken, hNone] using hRead

end ScansAs

/-- Keywords with a blank before each. -/
def spaced (keywords : List Keyword) : List Char :=
  keywords.flatMap fun k => ' ' :: k.word.toList

theorem opens_spaced (keywords : List Keyword) : Opens (spaced keywords) := by
  cases keywords with
  | nil => exact opens_nil
  | cons k rest => exact opens_cons (by decide) _

/-- Keywords with blanks in front of them are scanned one by one. -/
theorem scansAs_spaced (keywords : List Keyword) :
    ScansAs (spaced keywords) (keywords.map .keyword) := by
  induction keywords with
  | nil => exact ScansAs.nil
  | cons k rest ih =>
      exact (ScansFreely.blank.append_as (.keyword k)).append ih (opens_spaced rest)

/-- A list whose separator ends by itself and ends what stands before it. -/
theorem scansAs_intercalate {β : Type} {text : β → String} {tokens : β → List Token}
    {separator : String} {mark : Token} (hSeparator : ScansFreely separator.toList [mark])
    (hOpens : ∀ more, Opens (separator.toList ++ more)) {items : List β}
    (hItem : ∀ b ∈ items, ScansAs (text b).toList (tokens b)) :
    ScansAs (String.intercalate separator (items.map text)).toList
      (separatedTokens mark (items.map tokens)) := by
  induction items with
  | nil => exact ScansAs.nil
  | cons b items ih =>
      have hFirst := hItem b List.mem_cons_self
      have hMore := ih fun c hc => hItem c (List.mem_cons_of_mem _ hc)
      cases items with
      | nil => simpa [separatedTokens] using hFirst
      | cons c items =>
          have hAll := hFirst.append (hSeparator.append_as hMore) (hOpens _)
          simpa [separatedTokens, String.intercalate_cons_cons,
            List.intercalate_cons_cons] using hAll

theorem scansFreely_comma : ScansFreely ", ".toList [.mark .comma] :=
  (ScansFreely.mark .comma fun _ => rfl).append .blank

theorem opens_comma (more : List Char) : Opens (", ".toList ++ more) :=
  opens_cons (by decide) _

theorem scansFreely_and : ScansFreely " and ".toList [.keyword .and] :=
  (scansAs_spaced [.and]).closed

theorem opens_and (more : List Char) : Opens (" and ".toList ++ more) :=
  opens_cons (by decide) _

end Grammar

open Grammar

/-- A number after the minus sign that may stand before it. -/
def signedTokens (negative : Bool) (digits : List Char) : List Token :=
  (if negative then [.mark .minus] else []) ++ [.number (String.ofList digits)]

mutual

/-- The tokens of a constant. Floats that are not finite are no constants of a
text. -/
def Literal.tokens : Literal → List Token
  | .null => [.keyword .null]
  | .bool b => [.keyword (if b then .true else .false)]
  | .integer n => signedTokens (decide (n < 0)) (Nat.toDigits 10 n.natAbs)
  | .float (.finite x) =>
      signedTokens x.negative ((x.shortest FloatLiteral.style.tieUp).render FloatLiteral.style)
  | .float _ => []
  | .string s => [.string s]
  | .array items =>
      .mark .leftBracket ::
        (separatedTokens (.mark .comma) (Literal.tokensOfItems items) ++ [.mark .rightBracket])

def Literal.tokensOfItems : List Literal → List (List Token)
  | [] => []
  | item :: rest => item.tokens :: Literal.tokensOfItems rest

end

theorem Literal.tokensOfItems_eq (items : List Literal) :
    Literal.tokensOfItems items = items.map Literal.tokens := by
  induction items with
  | nil => rfl
  | cons item rest ih => rw [Literal.tokensOfItems, ih, List.map_cons]

theorem Literal.texts_eq (items : List Literal) : Literal.texts items = items.map Literal.text := by
  induction items with
  | nil => rfl
  | cons item rest ih => rw [Literal.texts, ih, List.map_cons]

/-- The digits of a whole number are a numeral. -/
def Numeral.ofNat (n : Nat) : Numeral where
  whole := .ofNat n
  fraction := .zeros 0
  exponent := none
  whole_ne_nil := Nat.toDigits_ne_nil
  exponent_ne_nil := by simp

theorem Numeral.text_ofNat (n : Nat) : (Numeral.ofNat n).text = Nat.toDigits 10 n := by
  simp [Numeral.text, Numeral.ofNat, Numeral.fractionText, Numeral.exponentText, Digits.zeros,
    Digits.ofNat]

mutual

/-- A literal is scanned as its own tokens; the items of an array are taken by
the same induction. -/
theorem scansAs_literal (literal : Literal) (h : literal.WellFormed) :
    ScansAs literal.text.toList literal.tokens := by
  cases literal with
  | null => exact .keyword .null
  | bool b =>
      cases b with
      | false => exact ScansAs.keyword Keyword.false
      | true => exact ScansAs.keyword Keyword.true
  | integer n =>
      have hScans := ScansAs.signed (decide (n < 0)) (.ofNat n.natAbs)
      rw [Numeral.text_ofNat] at hScans
      simpa [Literal.text, Literal.tokens, signedTokens, Decimal.renderInteger] using hScans
  | float x =>
      obtain ⟨y, rfl⟩ := h
      obtain ⟨n, hText, _, _⟩ := y.exists_numeral_render FloatLiteral.style
      have hScans := ScansAs.signed y.negative n
      rw [← hText] at hScans
      simpa [Literal.text, Literal.tokens, signedTokens, FloatLiteral.text, Double.render]
        using hScans
  | string s => exact (ScansFreely.quote s).toScansAs
  | array items =>
      have hItems := scansAs_intercalate scansFreely_comma opens_comma (scansAs_items items h)
      have hScans := ((ScansFreely.mark .leftBracket fun _ => rfl).append_as hItems).append
        (ScansFreely.mark .rightBracket fun _ => rfl).toScansAs (opens_cons (by decide) [])
      simpa [Literal.text, Literal.tokens, Literal.texts_eq, Literal.tokensOfItems_eq,
        Mark.spelling] using hScans

theorem scansAs_items (items : List Literal) (h : Literal.AllWellFormed items) :
    ∀ item ∈ items, ScansAs item.text.toList item.tokens := by
  cases items with
  | nil => simp
  | cons item rest =>
      exact List.forall_mem_cons.mpr ⟨scansAs_literal item h.1, scansAs_items rest h.2⟩

end

/-- The tokens of a property with its local marker. -/
def markedTokens (property : String) (isLocal : Bool) : List Token :=
  .string property :: (if isLocal then [.mark .caret] else [])

def Operator.token : Operator → Token
  | .equal => .mark .equal
  | .notEqual => .mark .notEqual
  | .greaterThan => .mark .greaterThan
  | .greaterThanOrEqual => .mark .greaterThanOrEqual
  | .lessThan => .mark .lessThan
  | .lessThanOrEqual => .mark .lessThanOrEqual
  | .isIn => .keyword .in
  | .notIn => .keyword .notIn
  | .arrayContains => .keyword .arrayContains
  | .arrayContainsAny => .keyword .arrayContainsAny
  | .like => .keyword .like

def Direction.keyword : Direction → Keyword
  | .asc => .asc
  | .desc => .desc

/-- The word before a subject of a kind. -/
def SubjectKind.subjectKeyword : SubjectKind → SubjectKeyword
  | .collection => .from
  | .collectionGroup => .within
  | .document => .at

def Subject.tokens (subject : Subject) : List Token :=
  [.keyword subject.kind.subjectKeyword.keyword, .string subject.path]

def Clause.tokens (clause : Clause) : List Token :=
  markedTokens clause.property clause.isLocal ++ (clause.operator.token :: clause.value.tokens)

def OrderKey.tokens (key : OrderKey) : List Token :=
  markedTokens key.property key.isLocal ++ [.keyword key.direction.keyword]

def Setter.tokens (setter : Setter) : List Token :=
  .string setter.property :: .mark .assign :: setter.value.tokens

def Projection.tokens : Projection → List Token
  | .all => [.mark .star]
  | .only properties =>
      separatedTokens (.mark .comma) (properties.map fun property => [.string property])

/-- A clause that is left out when its list is empty. -/
def listTokens (lead : List Token) (separator : Token) (members : List (List Token)) :
    List Token :=
  if members.isEmpty then [] else lead ++ separatedTokens separator members

/-- A clause that is left out when it has no argument. -/
def optionalTokens (lead : List Token) (argument : Option (List Token)) : List Token :=
  (argument.map (lead ++ ·)).getD []

def clausesTokens (clauses : List Clause) : List Token :=
  listTokens [.keyword .where] (.keyword .and) (clauses.map Clause.tokens)

def settersTokens (setters : List Setter) : List Token :=
  separatedTokens (.mark .comma) (setters.map Setter.tokens)

def OutputClause.targetTokens (output : OutputClause) : List Token :=
  match output.kind with
  | .inline => []
  | .clipboard => [.identifier "clipboard"]
  | .path => [.string (output.destination.getD "")]

def OutputClause.tokens (output : OutputClause) : List Token :=
  .keyword .output ::
    (optionalTokens [] (output.format.map fun format => [.identifier format.word]) ++
      output.targetTokens)

def Select.tokens (q : Select) : List Token :=
  .keyword .select :: (q.projection.tokens ++ (q.subject.tokens ++ (clausesTokens q.clauses ++
    (listTokens [.keyword .order, .keyword .by] (.mark .comma) (q.order.map OrderKey.tokens) ++
      (optionalTokens [.keyword .limit] (q.limit.map fun n => [.number n.repr]) ++
        (optionalTokens [.keyword .page] (q.page.map fun n => [.number n.repr]) ++
          (optionalTokens [.keyword .group, .keyword .by]
              (q.group.map fun property => [.string property]) ++
            (optionalTokens [.keyword .function] (q.aggregate.map fun aggregate =>
                [.mark .leftParen, .identifier aggregate.word, .mark .rightParen]) ++
              ((q.output.map OutputClause.tokens).getD [])))))))))

def Update.tokens (q : Update) : List Token :=
  .keyword .update ::
    (q.subject.tokens ++ (.keyword .set :: (settersTokens q.setters ++ clausesTokens q.clauses)))

def Delete.tokens (q : Delete) : List Token :=
  .keyword .delete :: (q.subject.tokens ++ clausesTokens q.clauses)

def Insert.tokens (q : Insert) : List Token :=
  .keyword .insert :: .keyword .into :: .string q.collection :: .keyword .set ::
    (settersTokens q.setters ++
      optionalTokens [.keyword .identified, .keyword .by]
        (q.identifier.map fun identifier => [.string identifier]))

def Show.tokens (q : Show) : List Token :=
  .keyword .show :: .identifier "collections" ::
    optionalTokens [] (q.subject.map Subject.tokens)

/-- The tokens of the canonical text of a query. -/
def Query.tokens : Query → List Token
  | .select q => q.tokens
  | .update q => q.tokens
  | .delete q => q.tokens
  | .insert q => q.tokens
  | .show q => q.tokens

theorem scansAs_marked (property : String) (isLocal : Bool) :
    ScansAs (markedProperty property isLocal).toList (markedTokens property isLocal) := by
  have hQuote := ScansFreely.quote property
  cases isLocal with
  | false => simpa [markedProperty, markedTokens] using hQuote.toScansAs
  | true =>
      simpa [markedProperty, markedTokens, Mark.spelling] using hQuote.append_as (.mark .caret)

theorem scansAs_operator (operator : Operator) :
    ScansAs operator.symbol.toList [operator.token] := by
  cases operator with
  | equal => exact ScansAs.mark .equal
  | notEqual => exact ScansAs.mark .notEqual
  | greaterThan => exact ScansAs.mark .greaterThan
  | greaterThanOrEqual => exact ScansAs.mark .greaterThanOrEqual
  | lessThan => exact ScansAs.mark .lessThan
  | lessThanOrEqual => exact ScansAs.mark .lessThanOrEqual
  | isIn => exact ScansAs.keyword .in
  | notIn => exact ScansAs.keyword .notIn
  | arrayContains => exact ScansAs.keyword .arrayContains
  | arrayContainsAny => exact ScansAs.keyword .arrayContainsAny
  | like => exact ScansAs.keyword .like

theorem scansAs_subject (subject : Subject) : ScansAs subject.text.toList subject.tokens := by
  have hKeyword : ScansAs subject.kind.keyword.toList
      [.keyword subject.kind.subjectKeyword.keyword] := by
    cases subject.kind with
    | collection => exact ScansAs.keyword .from
    | collectionGroup => exact ScansAs.keyword .within
    | document => exact ScansAs.keyword .at
  simpa [Subject.text, Subject.tokens] using
    hKeyword.closed.append_as (ScansFreely.quote subject.path).toScansAs

theorem scansAs_clause {clause : Clause} (h : clause.WellFormed) :
    ScansAs clause.text.toList clause.tokens := by
  have hOperator := (scansAs_marked clause.property clause.isLocal).closed.append
    (scansAs_operator clause.operator).closed
  simpa [Clause.text, Clause.tokens] using hOperator.append_as (scansAs_literal _ h.1)

theorem scansAs_orderKey (key : OrderKey) : ScansAs key.text.toList key.tokens := by
  have hDirection : ScansAs key.direction.word.toList [.keyword key.direction.keyword] := by
    cases key.direction with
    | asc => exact ScansAs.keyword .asc
    | desc => exact ScansAs.keyword .desc
  simpa [OrderKey.text, OrderKey.tokens] using
    (scansAs_marked key.property key.isLocal).closed.append_as hDirection

theorem scansAs_setter {setter : Setter} (h : setter.WellFormed) :
    ScansAs setter.text.toList setter.tokens := by
  have hAssign : ScansFreely " = ".toList [.mark .assign] :=
    (ScansFreely.blank.append_as (.mark .assign)).closed
  simpa [Setter.text, Setter.tokens] using
    ((ScansFreely.quote setter.property).append hAssign).append_as (scansAs_literal _ h)

theorem scansAs_projection (projection : Projection) :
    ScansAs projection.text.toList projection.tokens := by
  cases projection with
  | all => exact ScansAs.mark .star
  | only properties =>
      exact scansAs_intercalate scansFreely_comma opens_comma
        fun property _ => (ScansFreely.quote property).toScansAs

namespace Grammar

/-- A text that can follow a word and is read as these tokens if a delimiter
follows it. -/
structure ScansBehind (text : List Char) (tokens : List Token) : Prop where
  scans : ScansAs text tokens
  opens : Opens text

namespace ScansBehind

variable {first second : List Char} {tokens others : List Token}

theorem nil : ScansBehind [] [] :=
  ⟨.nil, opens_nil⟩

/-- Keywords and what ends the last of them. -/
theorem keywords (keywords : List Keyword) (h : ScansAs second others) (hOpens : Opens second) :
    ScansBehind (spaced keywords ++ second) (keywords.map .keyword ++ others) :=
  ⟨(scansAs_spaced keywords).append h hOpens, (opens_spaced keywords).append hOpens⟩

/-- Keywords, a blank and an argument. -/
theorem lead (lead : String) (keywords : List Keyword) (h : ScansAs second others)
    (hLead : lead.toList = spaced keywords ++ [' ']) :
    ScansBehind (lead.toList ++ second) (keywords.map .keyword ++ others) := by
  rw [hLead, List.append_assoc]
  exact .keywords keywords (ScansFreely.blank.append_as h) (opens_cons (by decide) second)

/-- Parts that are written with a blank in front of them are scanned one after
the other. -/
theorem append (hFirst : ScansBehind first tokens) (hSecond : ScansBehind second others) :
    ScansBehind (first ++ second) (tokens ++ others) :=
  ⟨hFirst.scans.append hSecond.scans hSecond.opens, hFirst.opens.append hSecond.opens⟩

/-- A part that may be missing is scanned as its keywords and its argument, or
as nothing. -/
theorem optional {β : Type} {text : β → String} {tokens : β → List Token} (lead : String)
    (keywords : List Keyword) (hLead : lead.toList = spaced keywords ++ [' '])
    {argument : Option β} (h : ∀ b ∈ argument, ScansAs (text b).toList (tokens b)) :
    ScansBehind (optionalClause lead (argument.map text)).toList
      (optionalTokens (keywords.map .keyword) (argument.map tokens)) := by
  cases argument with
  | none => exact .nil
  | some b =>
      have hScans := ScansBehind.lead lead keywords (h b rfl) hLead
      simpa [optionalClause, optionalTokens] using hScans

/-- A list that is left out when it is empty is scanned as its keywords and its
members. -/
theorem list {β : Type} {text : β → String} {tokens : β → List Token} (lead : String)
    (keywords : List Keyword) {separator : String} {mark : Token}
    (hLead : lead.toList = spaced keywords ++ [' '])
    (hSeparator : ScansFreely separator.toList [mark])
    (hOpens : ∀ more, Opens (separator.toList ++ more)) {items : List β}
    (h : ∀ b ∈ items, ScansAs (text b).toList (tokens b)) :
    ScansBehind (listClause lead separator (items.map text)).toList
      (listTokens (keywords.map .keyword) mark (items.map tokens)) := by
  cases items with
  | nil => exact .nil
  | cons b items =>
      simpa [listClause, listTokens] using
        ScansBehind.lead lead keywords (scansAs_intercalate hSeparator hOpens h) hLead

end ScansBehind

/-- A part with a blank in front of it may stand behind every other part. -/
theorem ScansAs.behind {first second : List Char} {tokens others : List Token}
    (hFirst : ScansAs first tokens) (hSecond : ScansBehind second others) :
    ScansAs (first ++ second) (tokens ++ others) :=
  hFirst.append hSecond.scans hSecond.opens

end Grammar

theorem scansAs_repr (n : Nat) : ScansAs n.repr.toList [.number n.repr] := by
  have hScans := ScansAs.numeral (.ofNat n)
  rwa [Numeral.text_ofNat, ← Nat.repr_eq_ofList_toDigits, ← Nat.toList_repr] at hScans

/-- The conditions of a query are scanned behind what they restrict. -/
theorem scansBehind_clauses {clauses : List Clause} (h : ∀ clause ∈ clauses, clause.WellFormed) :
    ScansBehind (clausesText clauses).toList (clausesTokens clauses) :=
  .list " where " [.where] rfl scansFreely_and opens_and
    fun clause hClause => scansAs_clause (h clause hClause)

theorem scansAs_setters {setters : List Setter} (h : ∀ setter ∈ setters, setter.WellFormed) :
    ScansAs (settersText setters).toList (settersTokens setters) :=
  scansAs_intercalate scansFreely_comma opens_comma
    fun setter hSetter => scansAs_setter (h setter hSetter)

theorem scansAs_format (format : Format) :
    ScansAs format.word.toList [.identifier format.word] := by
  cases format with
  | json => exact .identifier (by decide +kernel) (by decide +kernel)
  | csv => exact .identifier (by decide +kernel) (by decide +kernel)

theorem scansAs_aggregate (aggregate : Aggregate) :
    ScansAs ('(' :: (aggregate.word.toList ++ [')']))
      [.mark .leftParen, .identifier aggregate.word, .mark .rightParen] := by
  have hWord : ScansAs aggregate.word.toList [.identifier aggregate.word] := by
    cases aggregate with
    | count => exact .identifier (by decide +kernel) (by decide +kernel)
    | distinct => exact .identifier (by decide +kernel) (by decide +kernel)
  have hClose : ScansFreely [')'] [.mark .rightParen] := ScansFreely.mark .rightParen fun _ => rfl
  have hOpen : ScansFreely ['('] [.mark .leftParen] := ScansFreely.mark .leftParen fun _ => rfl
  exact hOpen.append_as (hWord.append hClose.toScansAs (opens_cons (by decide) []))

/-- The function stands directly behind its keyword, with only the parenthesis
between them. -/
theorem scansBehind_function (aggregate : Option Aggregate) :
    ScansBehind (optionalClause " function"
        (aggregate.map fun aggregate => "(" ++ aggregate.word ++ ")")).toList
      (optionalTokens [.keyword .function] (aggregate.map fun aggregate =>
        [.mark .leftParen, .identifier aggregate.word, .mark .rightParen])) := by
  cases aggregate with
  | none => exact .nil
  | some aggregate =>
      have hScans := ScansBehind.keywords [.function] (scansAs_aggregate aggregate)
        (opens_cons (by decide) _)
      simpa [optionalClause, optionalTokens, spaced, Keyword.word] using hScans

/-- An output is scanned behind the statement that it belongs to. -/
theorem scansBehind_output (output : OutputClause) :
    ScansBehind output.text.toList output.tokens := by
  obtain ⟨kind, format, destination⟩ := output
  have hFormat : ScansBehind (optionalClause " " (format.map Format.word)).toList
      (optionalTokens [] (format.map fun format => [.identifier format.word])) :=
    .optional " " [] rfl fun format _ => scansAs_format format
  have hLead := (ScansBehind.keywords [.output] .nil opens_nil).append hFormat
  cases kind with
  | inline =>
      simpa [OutputClause.text, OutputClause.tokens, OutputClause.targetTokens, spaced,
        Keyword.word]
        using hLead
  | clipboard =>
      have hWord : ScansAs "clipboard".toList [.identifier "clipboard"] :=
        .identifier (by decide +kernel) (by decide +kernel)
      simpa [OutputClause.text, OutputClause.tokens, OutputClause.targetTokens, spaced,
        Keyword.word]
        using hLead.append (ScansBehind.lead " " [] hWord rfl)
  | path =>
      have hPath := (ScansFreely.quote (destination.getD "")).toScansAs
      simpa [OutputClause.text, OutputClause.tokens, OutputClause.targetTokens, spaced,
        Keyword.word]
        using hLead.append (ScansBehind.lead " " [] hPath rfl)

/-- The text of a select is scanned as the tokens of its parts, in their
order. -/
theorem scansAs_select {q : Select} (h : q.WellFormed) : ScansAs q.text.toList q.tokens := by
  have hOrder : ScansBehind (listClause " order by " ", " (q.order.map OrderKey.text)).toList
      (listTokens [.keyword .order, .keyword .by] (.mark .comma) (q.order.map OrderKey.tokens)) :=
    .list " order by " [.order, .by] rfl scansFreely_comma opens_comma
      fun key _ => scansAs_orderKey key
  have hLimit : ScansBehind (optionalClause " limit " (q.limit.map Nat.repr)).toList
      (optionalTokens [.keyword .limit] (q.limit.map fun n => [.number n.repr])) :=
    .optional " limit " [.limit] rfl fun n _ => scansAs_repr n
  have hPage : ScansBehind (optionalClause " page " (q.page.map Nat.repr)).toList
      (optionalTokens [.keyword .page] (q.page.map fun n => [.number n.repr])) :=
    .optional " page " [.page] rfl fun n _ => scansAs_repr n
  have hGroup : ScansBehind (optionalClause " group by " (q.group.map Text.quote)).toList
      (optionalTokens [.keyword .group, .keyword .by]
        (q.group.map fun property => [.string property])) :=
    .optional " group by " [.group, .by] rfl
      fun property _ => (ScansFreely.quote property).toScansAs
  have hOutput : ScansBehind ((q.output.map OutputClause.text).getD "").toList
      ((q.output.map OutputClause.tokens).getD []) := by
    cases q.output with
    | none => exact .nil
    | some output => exact scansBehind_output output
  have hClauses := scansBehind_clauses h.clauses
  have hSubject := ScansBehind.lead " " [] (scansAs_subject q.subject) rfl
  have hBody := hSubject.append <| hClauses.append <| hOrder.append <| hLimit.append <|
    hPage.append <| hGroup.append <| (scansBehind_function q.aggregate).append hOutput
  have hSelect : ScansFreely "select ".toList [.keyword .select] :=
    (ScansAs.keyword .select).closed
  have hAll := hSelect.append_as ((scansAs_projection q.projection).behind hBody)
  delta Select.text
  simp only [String.toList_append, List.append_assoc] at hAll ⊢
  exact hAll

theorem scansAs_update {q : Update} (h : q.WellFormed) : ScansAs q.text.toList q.tokens := by
  have hUpdate : ScansFreely "update ".toList [.keyword .update] :=
    (ScansAs.keyword .update).closed
  have hSetters := ScansBehind.lead " set " [.set] (scansAs_setters h.setters) rfl
  have hBody := hSetters.append (scansBehind_clauses h.clauses_wellFormed)
  have hAll := hUpdate.append_as ((scansAs_subject q.subject).behind hBody)
  delta Update.text
  simp only [String.toList_append, List.append_assoc] at hAll ⊢
  exact hAll

theorem scansAs_delete {q : Delete} (h : q.WellFormed) : ScansAs q.text.toList q.tokens := by
  have hDelete : ScansFreely "delete ".toList [.keyword .delete] :=
    (ScansAs.keyword .delete).closed
  have hBody := (scansAs_subject q.subject).behind (scansBehind_clauses h.clauses_wellFormed)
  have hAll := hDelete.append_as hBody
  delta Delete.text
  simp only [String.toList_append, List.append_assoc] at hAll ⊢
  exact hAll

theorem scansAs_insert {q : Insert} (h : q.WellFormed) : ScansAs q.text.toList q.tokens := by
  have hInsert : ScansFreely "insert into ".toList [.keyword .insert, .keyword .into] :=
    (ScansAs.keyword .insert).closed.append (ScansAs.keyword .into).closed
  have hIdentifier : ScansBehind
      (optionalClause " identified by " (q.identifier.map Text.quote)).toList
      (optionalTokens [.keyword .identified, .keyword .by]
        (q.identifier.map fun identifier => [.string identifier])) :=
    .optional " identified by " [.identified, .by] rfl
      fun identifier _ => (ScansFreely.quote identifier).toScansAs
  have hSetters := ScansBehind.lead " set " [.set] (scansAs_setters h.setters) rfl
  have hBody := (ScansFreely.quote q.collection).toScansAs.behind (hSetters.append hIdentifier)
  have hAll := hInsert.append_as hBody
  delta Insert.text
  simp only [String.toList_append, List.append_assoc] at hAll ⊢
  exact hAll

theorem scansAs_show (q : Show) : ScansAs q.text.toList q.tokens := by
  have hWord : ScansAs "collections".toList [.identifier "collections"] :=
    .identifier (by decide +kernel) (by decide +kernel)
  have hSubject : ScansBehind (optionalClause " " (q.subject.map Subject.text)).toList
      (optionalTokens [] (q.subject.map Subject.tokens)) :=
    .optional " " [] rfl fun subject _ => scansAs_subject subject
  have hAll := (ScansAs.keyword .show).closed.append_as (hWord.behind hSubject)
  delta Show.text
  rw [String.toList_append]
  exact hAll

/-- The canonical text of a well-formed query is read as the tokens of the
query. -/
theorem Query.scans_text {q : Query} (h : q.WellFormed) : Scans q.text.toList q.tokens := by
  have hScans : ScansAs q.text.toList q.tokens := by
    cases q with
    | select q => exact scansAs_select h
    | update q => exact scansAs_update h
    | delete q => exact scansAs_delete h
    | insert q => exact scansAs_insert h
    | «show» q => exact scansAs_show q
  simpa using hScans [] [] delimited_nil scans_nil

end DocQuery
