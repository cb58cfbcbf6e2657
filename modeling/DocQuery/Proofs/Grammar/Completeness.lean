import DocQuery.Proofs.Grammar.Soundness

/-! Readers take everything that the grammar allows. From tokens of the form of
a part the reader of this part gives that very part, provided that what follows
could not be taken for more of it; and the parts of a statement stand in an
order in which this never happens. With that the tokens of a text spell at most
one statement, the one that is read. -/
namespace DocQuery.Grammar

open Reader

section Combinations

variable {α β : Type} {reader : Reader β} {form : Form α} {f : β → α} {k : Keyword}
  {tokens after heads : List Token}

/-- What is spelled behind a keyword is read behind it. -/
theorem reads_behind {part : α} (h : Behind k form tokens part)
    (hPart : ∀ tokens part, form tokens part →
      Reads reader (tokens ++ after) (fun found => f found = part) after) :
    Reads (do let _ ← keyword k; reader) (tokens ++ after) (fun found => f found = part) after := by
  cases h with
  | intro hForm => exact (reads_keyword k).bind fun _ _ => hPart _ _ hForm

/-- An optional part is read if it is spelled, and taken to be missing if
another keyword follows. -/
theorem reads_optionally {part : Option α} (h : Optionally (Behind k form) tokens part)
    (hNext : after.headD .endOfInput ≠ .keyword k)
    (hPart : ∀ tokens part, form tokens part →
      Reads reader (tokens ++ after) (fun found => f found = part) after) :
    Reads (optional k reader) (tokens ++ after) (fun found => found.map f = part) after := by
  cases h with
  | absent =>
      refine (reads_optional_none hNext).mono fun found hFound => ?_
      rw [hFound]
      rfl
  | present hBehind =>
      cases hBehind with
      | intro hForm =>
          refine (reads_optional_some k (hPart _ _ hForm)).mono fun found hFound => ?_
          obtain ⟨node, rfl, hNode⟩ := hFound
          exact congrArg some hNode

/-- Before a part that may be absent stands its keyword or what is behind the
part. -/
theorem nextIn_optionally {part : Option α} (h : Optionally (Behind k form) tokens part)
    (hAfter : NextIn heads after) : NextIn (.keyword k :: heads) (tokens ++ after) := by
  cases h with
  | absent => exact List.mem_cons_of_mem _ hAfter
  | present hBehind =>
      cases hBehind with
      | intro hForm => exact List.mem_cons_self

/-- Parts with separators between them are read one by one up to where no
separator follows. -/
theorem reads_several {separator : Token} {parts : List α}
    (h : Separated separator form tokens parts) (hAfter : after.headD .endOfInput ≠ separator)
    (hItem : ∀ tokens part, form tokens part → ∀ rest,
      rest = after ∨ rest.headD .endOfInput = separator →
        Reads reader (tokens ++ rest) (fun found => f found = part) rest) :
    Reads (separated separator reader) (tokens ++ after) (fun found => found.map f = parts)
      after := by
  cases h with
  | intro hParts hNonempty =>
      have hFound := reads_separated_of_forall₂ hAfter hParts hNonempty fun tokens _ => hItem tokens
      exact hFound.mono fun found => map_eq_of_forall₂

end Combinations

variable {tokens : List Token}

/-- A name is read from an identifier or from a text, whatever the place
expects. -/
theorem reads_spelledName {name : Name} (h : SpellsName tokens name) (expectation : Expectation)
    (rest : List Token) :
    Reads (Reader.name expectation) (tokens ++ rest) (fun found => found.unplaced = name) rest := by
  refine reads_place.bind fun position _ => reads_peek.bind fun found hFound => ?_
  subst hFound
  cases h with
  | identifier | string => exact (reads_skip _).bind fun _ _ => reads_pure rfl

theorem SpellsValue.ne_nil {node : ValueNode} (h : SpellsValue tokens node) : tokens ≠ [] := by
  cases h <;> simp

/-- A value begins with no bracket that closes an array. -/
theorem SpellsValue.headD_ne_rightBracket {node : ValueNode} (h : SpellsValue tokens node)
    (rest : List Token) : (tokens ++ rest).headD .endOfInput ≠ .mark .rightBracket := by
  cases h <;> simp

/-- A value is read within a depth that is at least the number of its tokens,
since each array takes one of both. -/
theorem reads_spelledValueWithin {node : ValueNode} (h : SpellsValue tokens node) {depth : Nat}
    (hDepth : tokens.length ≤ depth) (rest : List Token) :
    Reads (readValueWithin depth) (tokens ++ rest) (fun found => found.unplaced = node) rest := by
  induction depth generalizing tokens node rest with
  | zero => exact absurd (List.eq_nil_of_length_eq_zero (Nat.le_zero.mp hDepth)) h.ne_nil
  | succ depth ih =>
      refine reads_place.bind fun position _ => reads_peek.bind fun found hFound => ?_
      subst hFound
      cases h with
      | string | number | true | false | null | name =>
          exact (reads_skip _).bind fun _ _ => reads_pure rfl
      | negative digits =>
          refine (reads_skip _).bind fun _ _ => reads_peek.bind fun found hFound => ?_
          subst hFound
          exact (reads_skip _).bind fun _ _ => reads_pure rfl
      | @array pieces items hItems =>
          have hTokens : Token.mark .leftBracket ::
              (separatedTokens (.mark .comma) pieces ++ [.mark .rightBracket]) ++ rest =
                .mark .leftBracket ::
                  (separatedTokens (.mark .comma) pieces ++ .mark .rightBracket :: rest) := by
            simp
          rw [hTokens]
          refine (reads_skip _).bind fun _ _ => ?_
          cases hItems with
          | nil =>
              refine (reads_accept (.mark .rightBracket)).bind fun taken hTaken => ?_
              rw [hTaken]
              exact reads_pure rfl
          | @cons piece item pieces items hFirst hRest =>
              obtain ⟨tail, hTail⟩ := exists_separatedTokens_cons (.mark .comma) piece pieces
              have hNext : (separatedTokens (.mark .comma) (piece :: pieces) ++
                  .mark .rightBracket :: rest).headD .endOfInput ≠ .mark .rightBracket := by
                rw [hTail, List.append_assoc]
                exact hFirst.headD_ne_rightBracket _
              have hLength : ∀ part ∈ piece :: pieces, part.length ≤ depth := by
                intro part hPart
                have hPiece := length_le_of_mem_separatedTokens (.mark .comma) hPart
                simp only [List.length_cons, List.length_append] at hDepth
                omega
              refine (reads_accept_of_ne hNext).bind fun taken hTaken => ?_
              rw [hTaken]
              refine (reads_separated_of_forall₂ (by simp) (.cons hFirst hRest)
                (List.cons_ne_nil item items) fun part hPart node hNode more _ =>
                  ih hNode (hLength part hPart) more).bind fun nodes hNodes => ?_
              refine (reads_expect (.mark .rightBracket)).bind fun _ _ => reads_pure ?_
              rw [ValueNode.unplaced, ValueNode.unplacedItems_eq, map_eq_of_forall₂ hNodes]

/-- A value is always read, since the depth allowed is the number of tokens that
are left. -/
theorem reads_spelledValue {node : ValueNode} (h : SpellsValue tokens node) (rest : List Token) :
    Reads readValue (tokens ++ rest) (fun found => found.unplaced = node) rest := by
  refine reads_get.bind fun lexemes hLength => reads_spelledValueWithin h ?_ rest
  rw [hLength, List.length_append]
  omega

/-- A caret is read if there is one, and nothing is read where no caret
follows. -/
theorem reads_spelledMarker {marked : Bool} (h : SpellsMarker tokens marked) {rest : List Token}
    (hRest : rest.headD .endOfInput ≠ .mark .caret) :
    Reads readMarker (tokens ++ rest) (· = marked) rest := by
  cases h with
  | absent => exact reads_accept_of_ne hRest
  | present => exact reads_accept (.mark .caret)

theorem reads_operator (operator : Operator) (rest : List Token) :
    Reads readOperator (operator.token :: rest) (· = operator) rest := by
  refine reads_peek.bind fun found hFound => ?_
  have hToken : operatorOfToken? found = some operator := by
    subst hFound
    cases operator <;> rfl
  rw [hToken]
  exact (reads_skip _).bind fun _ _ => reads_pure rfl

theorem reads_spelledPredicate {node : PredicateNode} (h : SpellsPredicate tokens node)
    (rest : List Token) :
    Reads readPredicate (tokens ++ rest) (fun found => found.unplaced = node) rest := by
  cases h with
  | @intro _ _ _ valueTokens _ _ operator _ hProperty hMarker hOperator hValue =>
      cases hOperator
      have hNext : (operator.token :: (valueTokens ++ rest)).headD .endOfInput ≠ .mark .caret := by
        cases operator <;> simp [Operator.token]
      simp only [List.append_assoc, List.cons_append, List.nil_append]
      refine (reads_spelledName hProperty .property _).bind fun property hFound => ?_
      refine (reads_spelledMarker hMarker hNext).bind fun marked hMarked => ?_
      refine (reads_operator operator _).bind fun found hOperator => ?_
      refine (reads_spelledValue hValue rest).bind fun value hNode => reads_pure ?_
      rw [PredicateNode.unplaced, hFound, hMarked, hOperator, hNode]

/-- Conditions are read up to where neither `where` nor `and` follows. -/
theorem reads_spelledWhere {predicates : Option (List PredicateNode)}
    (h : SpellsWhere tokens predicates) {heads rest : List Token} (hRest : NextIn heads rest)
    (hHeads : .keyword .where ∉ heads ∧ .keyword .and ∉ heads) :
    Reads readWhere (tokens ++ rest)
      (fun found => found.map (List.map PredicateNode.unplaced) = predicates) rest :=
  reads_optionally h (hRest.ne hHeads.1) fun _ _ hSeparated =>
    reads_several hSeparated (hRest.ne hHeads.2) fun _ _ hPredicate more _ =>
      reads_spelledPredicate hPredicate more

theorem reads_direction (direction : Direction) (rest : List Token) :
    Reads readDirection (.keyword direction.keyword :: rest) (· = some direction) rest := by
  refine reads_peek.bind fun found hFound => ?_
  have hToken : directionOfToken? found = some direction := by
    subst hFound
    cases direction <;> rfl
  rw [hToken]
  exact (reads_skip _).bind fun _ _ => reads_pure rfl

theorem reads_spelledDirection {direction : Option Direction}
    (h : Optionally SpellsDirection tokens direction) {rest : List Token}
    (hRest : directionOfToken? (rest.headD .endOfInput) = none) :
    Reads readDirection (tokens ++ rest) (· = direction) rest := by
  cases h with
  | absent =>
      refine reads_peek.bind fun found hFound => ?_
      rw [hFound, List.nil_append, hRest]
      exact reads_pure rfl
  | present hDirection =>
      cases hDirection with
      | intro => exact reads_direction _ rest

/-- What an order key may not be taken for going on with. -/
def EndsSorter (rest : List Token) : Prop :=
  rest.headD .endOfInput ≠ .mark .caret ∧ directionOfToken? (rest.headD .endOfInput) = none

/-- A sort key is read up to where neither a caret nor a direction follows. -/
theorem reads_spelledSorter {node : SorterNode} (h : SpellsSorter tokens node) {rest : List Token}
    (hRest : EndsSorter rest) :
    Reads readSorter (tokens ++ rest) (fun found => found.unplaced = node) rest := by
  cases h with
  | @intro _ _ directionTokens _ _ direction hProperty hMarker hDirection =>
      have hNext : (directionTokens ++ rest).headD .endOfInput ≠ .mark .caret := by
        cases hDirection with
        | absent => exact hRest.1
        | present hDirection =>
            cases hDirection
            simp
      simp only [List.append_assoc]
      refine (reads_spelledName hProperty .property _).bind fun property hFound => ?_
      refine (reads_spelledMarker hMarker hNext).bind fun marked hMarked => ?_
      refine (reads_spelledDirection hDirection hRest.2).bind fun found hNode => reads_pure ?_
      rw [SorterNode.unplaced, hFound, hMarked, hNode]

theorem NextIn.endsSorter {heads rest : List Token} (h : NextIn heads rest)
    (hHeads : ∀ token ∈ heads, token ≠ .mark .caret ∧ directionOfToken? token = none) :
    EndsSorter rest :=
  hHeads _ h

theorem reads_spelledSorters {sorters : List SorterNode}
    (h : Separated (.mark .comma) SpellsSorter tokens sorters) {rest : List Token}
    (hComma : rest.headD .endOfInput ≠ .mark .comma) (hRest : EndsSorter rest) :
    Reads (separated (.mark .comma) readSorter) (tokens ++ rest)
      (fun found => found.map SorterNode.unplaced = sorters) rest := by
  refine reads_several h hComma fun _ _ hSorter more hMore => reads_spelledSorter hSorter ?_
  rcases hMore with rfl | hMore
  · exact hRest
  · rw [EndsSorter, hMore]
    exact ⟨by simp, rfl⟩

theorem reads_spelledSetter {node : SetterNode} (h : SpellsSetter tokens node)
    (rest : List Token) :
    Reads readSetter (tokens ++ rest) (fun found => found.unplaced = node) rest := by
  cases h with
  | intro hProperty hValue =>
      simp only [List.append_assoc, List.cons_append]
      refine (reads_spelledName hProperty .property _).bind fun property hFound => ?_
      refine (reads_expect (.mark .assign)).bind fun _ _ => ?_
      refine (reads_spelledValue hValue rest).bind fun value hNode => reads_pure ?_
      rw [SetterNode.unplaced, hFound, hNode]

theorem reads_spelledSetters {nodes : List SetterNode} (h : SpellsSetters tokens nodes)
    {rest : List Token} (hRest : rest.headD .endOfInput ≠ .mark .comma) :
    Reads readSetters (tokens ++ rest) (fun found => found.map SetterNode.unplaced = nodes) rest :=
  reads_behind h fun _ _ hSeparated =>
    reads_several hSeparated hRest fun _ _ hSetter more _ => reads_spelledSetter hSetter more

theorem subjectKeywordOfToken?_keyword (word : SubjectKeyword) :
    subjectKeywordOfToken? (.keyword word.keyword) = some word := by
  cases word <;> rfl

/-- A subject is read if its keyword is one of those that the statement
allows. -/
theorem reads_spelledSubject {allowed : List SubjectKeyword} {node : SubjectNode}
    (h : SpellsSubject allowed tokens node) (rest : List Token) :
    Reads (readSubject allowed) (tokens ++ rest) (fun found => found.unplaced = node) rest := by
  cases h with
  | @intro word _ text hWord hName =>
      refine reads_peek.bind fun found hFound => ?_
      rw [hFound, List.cons_append, List.headD_cons, subjectKeywordOfToken?_keyword]
      simp only [hWord, if_true]
      refine (reads_skip _).bind fun _ _ => ?_
      refine (reads_spelledName hName .subjectName rest).bind fun name hText => reads_pure ?_
      exact congrArg (fun found => SubjectNode.mk word found.text .start) hText

/-- A subject begins with one of the keywords for subjects. -/
theorem SpellsSubject.exists_headD {allowed : List SubjectKeyword} {node : SubjectNode}
    (h : SpellsSubject allowed tokens node) (rest : List Token) :
    ∃ word : SubjectKeyword, (tokens ++ rest).headD .endOfInput = .keyword word.keyword := by
  cases h
  exact ⟨_, rfl⟩

/-- A list of names begins with an identifier or a quoted text. -/
theorem headD_of_names {names : List Name} (h : Separated (.mark .comma) SpellsName tokens names)
    (rest : List Token) : (∃ text, (tokens ++ rest).headD .endOfInput = .identifier text) ∨
      ∃ text, (tokens ++ rest).headD .endOfInput = .string text := by
  cases h with
  | intro hParts hNonempty =>
      cases hParts with
      | nil => exact absurd rfl hNonempty
      | @cons piece _ pieces _ hFirst hRest =>
          obtain ⟨tail, hTail⟩ := exists_separatedTokens_cons (.mark .comma) piece pieces
          rw [hTail]
          cases hFirst with
          | identifier text => exact .inl ⟨text, rfl⟩
          | string text => exact .inr ⟨text, rfl⟩

/-- The fields of a select are read up to the keyword of its subject. -/
theorem reads_spelledFields {node : FieldsNode} (h : SpellsFields tokens node) {rest : List Token}
    {word : SubjectKeyword} (hRest : rest.headD .endOfInput = .keyword word.keyword) :
    Reads readFields (tokens ++ rest) (fun found => found.unplaced = node) rest := by
  have hNext (token : Token) (hToken : ∀ k, token ≠ .keyword k) :
      rest.headD .endOfInput ≠ token :=
    fun hSame => hToken word.keyword (hSame.symm.trans hRest)
  cases h with
  | star =>
      refine (reads_accept (.mark .star)).bind fun taken hTaken => ?_
      rw [hTaken]
      exact reads_pure rfl
  | none =>
      refine (reads_accept_of_ne (hNext _ (by simp))).bind fun taken hTaken => ?_
      rw [hTaken]
      refine reads_peek.bind fun found hFound => ?_
      rw [hFound, hRest, subjectKeywordOfToken?_keyword]
      exact reads_pure rfl
  | list hProperties =>
      have hHead := headD_of_names hProperties rest
      refine (reads_accept_of_ne ?_).bind fun taken hTaken => ?_
      · rcases hHead with ⟨text, hHead⟩ | ⟨text, hHead⟩ <;> rw [hHead] <;> simp
      rw [hTaken]
      refine reads_peek.bind fun found hFound => ?_
      have hNone : subjectKeywordOfToken? found = none := by
        rcases hHead with ⟨text, hHead⟩ | ⟨text, hHead⟩ <;> rw [hFound, hHead] <;> rfl
      rw [hNone]
      have hNames := reads_several hProperties (hNext (.mark .comma) (by simp))
        fun _ _ hName more _ => reads_spelledName hName .property more
      exact hNames.bind fun names hFound => reads_pure (congrArg FieldsNode.list hFound)

theorem reads_spelledFunction {name : Name} (h : SpellsFunction tokens name)
    (rest : List Token) :
    Reads readFunction (tokens ++ rest) (fun found => found.unplaced = name) rest := by
  cases h with
  | intro word =>
      refine (reads_expect (.mark .leftParen)).bind fun _ _ => ?_
      refine reads_place.bind fun position _ => reads_peek.bind fun found hFound => ?_
      subst hFound
      refine (reads_skip _).bind fun _ _ => ?_
      exact (reads_expect (.mark .rightParen)).bind fun _ _ => reads_pure rfl

/-- Behind a statement stands a semicolon or nothing. -/
def EndsStatement (rest : List Token) : Prop :=
  NextIn [.mark .semicolon, .endOfInput] rest

theorem EndsStatement.ne_identifier {rest : List Token} (h : EndsStatement rest) (word : String) :
    rest.headD .endOfInput ≠ .identifier word :=
  NextIn.ne h (by simp)

theorem EndsStatement.ne_string {rest : List Token} (h : EndsStatement rest) (text : String) :
    rest.headD .endOfInput ≠ .string text :=
  NextIn.ne h (by simp)

/-- Where a statement ends, the output is read with its target or without
one. -/
theorem reads_spelledTarget {target : Option OutputTarget}
    (h : Optionally SpellsTarget tokens target) {rest : List Token} (hRest : EndsStatement rest) :
    Reads readTarget (tokens ++ rest) (· = target) rest := by
  refine reads_peek.bind fun found hFound => ?_
  cases h with
  | absent =>
      rw [List.nil_append] at hFound ⊢
      split
      · exact absurd hFound.symm (hRest.ne_identifier _)
      · exact absurd hFound.symm (hRest.ne_string _)
      · exact reads_pure rfl
  | present hTarget =>
      subst hFound
      cases hTarget with
      | clipboard hWord =>
          simp only [List.cons_append, List.headD_cons, hWord, if_true]
          exact (reads_skip _).bind fun _ _ => reads_pure rfl
      | path text => exact (reads_skip _).bind fun _ _ => reads_pure rfl

/-- Without a format a target follows at once, which is no format. -/
theorem reads_spelledFormat {format : Option Name} (h : Optionally SpellsFormat tokens format)
    {rest : List Token}
    (hRest : ∀ word, rest.headD .endOfInput = .identifier word → isClipboard word = true) :
    Reads readFormat (tokens ++ rest) (fun found => found.map Name.unplaced = format) rest := by
  refine reads_place.bind fun position _ => reads_peek.bind fun found hFound => ?_
  cases h with
  | absent =>
      rw [List.nil_append] at hFound ⊢
      split
      · rename_i word
        rw [if_pos (hRest word hFound.symm)]
        exact reads_pure rfl
      · exact reads_pure rfl
  | present hFormat =>
      subst hFound
      cases hFormat with
      | intro hWord =>
          simp only [List.cons_append, List.headD_cons, hWord, Bool.false_eq_true, if_false]
          exact (reads_skip _).bind fun _ _ => reads_pure rfl

theorem reads_spelledOutput {output : Option OutputNode}
    (h : Optionally (Behind .output SpellsOutput) tokens output) {rest : List Token}
    (hRest : EndsStatement rest) :
    Reads readOutput (tokens ++ rest) (fun found => found.map OutputNode.unplaced = output)
      rest := by
  refine reads_place.bind fun position _ => ?_
  cases h with
  | absent =>
      refine (reads_accept_of_ne (NextIn.ne hRest (by simp))).bind fun taken hTaken => ?_
      rw [hTaken]
      exact reads_pure rfl
  | present hBehind =>
      cases hBehind with
      | intro hOutput =>
          cases hOutput with
          | @intro _ targetTokens _ _ hFormat hTarget hSome =>
              have hNext : ∀ word, (targetTokens ++ rest).headD .endOfInput = .identifier word →
                  isClipboard word = true := by
                intro word hWord
                cases hTarget with
                | absent => exact absurd hWord (hRest.ne_identifier word)
                | present hTarget =>
                    cases hTarget with
                    | clipboard hClipboard => exact Token.identifier.inj hWord ▸ hClipboard
                    | path text => cases hWord
              simp only [List.cons_append, List.append_assoc]
              refine (reads_accept (.keyword .output)).bind fun taken hTaken => ?_
              rw [hTaken]
              refine (reads_spelledFormat hFormat hNext).bind fun format hFound => ?_
              refine (reads_spelledTarget hTarget hRest).bind fun target hPlace => ?_
              subst hFound hPlace
              split
              · rename_i hNone
                simp_all
              · exact reads_pure rfl

/-- A select is read with each of its optional parts in the order of the
grammar. -/
theorem reads_spelledSelect {node : SelectNode} (h : SpellsSelect tokens node) {rest : List Token}
    (hRest : EndsStatement rest) :
    Reads readSelect (tokens ++ rest) (fun found => found.unplaced = node) rest := by
  cases h with
  | intro hFields hSubject hWhere hOrder hLimit hPage hGroup hFunction hOutput =>
      have hOutputNext := nextIn_optionally hOutput hRest
      have hFunctionNext := nextIn_optionally hFunction hOutputNext
      have hGroupNext := nextIn_optionally hGroup hFunctionNext
      have hPageNext := nextIn_optionally hPage hGroupNext
      have hLimitNext := nextIn_optionally hLimit hPageNext
      have hOrderNext := nextIn_optionally hOrder hLimitNext
      simp only [List.cons_append, List.append_assoc]
      refine (reads_keyword .select).bind fun position _ => ?_
      obtain ⟨word, hWord⟩ := hSubject.exists_headD _
      refine (reads_spelledFields hFields hWord).bind fun fields hFields => ?_
      refine (reads_spelledSubject hSubject _).bind fun subject hSubject => ?_
      refine (reads_spelledWhere hWhere hOrderNext (by decide)).bind fun predicates hWhere => ?_
      refine (reads_optionally hOrder (hLimitNext.ne (by decide)) fun _ _ hBehind =>
        reads_behind hBehind fun _ _ hSorters => reads_spelledSorters hSorters
          (hLimitNext.ne (by decide)) (hLimitNext.endsSorter (by decide))).bind
            fun sorters hOrder => ?_
      refine (reads_optionally hLimit (hPageNext.ne (by decide)) fun _ _ hValue =>
        reads_spelledValue hValue _).bind fun limit hLimit => ?_
      refine (reads_optionally hPage (hGroupNext.ne (by decide)) fun _ _ hValue =>
        reads_spelledValue hValue _).bind fun page hPage => ?_
      refine (reads_optionally hGroup (hFunctionNext.ne (by decide)) fun _ _ hBehind =>
        reads_behind hBehind fun _ _ hName => reads_spelledName hName .property _).bind
          fun group hGroup => ?_
      refine (reads_optionally hFunction (hOutputNext.ne (by decide)) fun _ _ hWord =>
        reads_spelledFunction hWord _).bind fun function hFunction => ?_
      refine (reads_spelledOutput hOutput hRest).bind fun output hOutput => reads_pure ?_
      rw [SelectNode.unplaced, hFields, hSubject, hWhere, hOrder, hLimit, hPage, hGroup, hFunction,
        hOutput]

/-- An update is read with its setters and the conditions behind them. -/
theorem reads_spelledUpdate {node : UpdateNode} (h : SpellsUpdate tokens node) {rest : List Token}
    (hRest : EndsStatement rest) :
    Reads readUpdate (tokens ++ rest) (fun found => found.unplaced = node) rest := by
  cases h with
  | intro hSubject hSetters hWhere =>
      have hWhereNext := nextIn_optionally hWhere hRest
      simp only [List.cons_append, List.append_assoc]
      refine (reads_keyword .update).bind fun position _ => ?_
      refine (reads_spelledSubject hSubject _).bind fun subject hSubject => ?_
      refine (reads_spelledSetters hSetters (hWhereNext.ne (by decide))).bind
        fun setters hSetters => ?_
      refine (reads_spelledWhere hWhere hRest (by decide)).bind fun predicates hWhere =>
        reads_pure ?_
      rw [UpdateNode.unplaced, hSubject, hSetters, hWhere]

theorem reads_spelledDelete {node : DeleteNode} (h : SpellsDelete tokens node) {rest : List Token}
    (hRest : EndsStatement rest) :
    Reads readDelete (tokens ++ rest) (fun found => found.unplaced = node) rest := by
  cases h with
  | intro hSubject hWhere =>
      simp only [List.cons_append, List.append_assoc]
      refine (reads_keyword .delete).bind fun position _ => ?_
      refine (reads_spelledSubject hSubject _).bind fun subject hSubject => ?_
      refine (reads_spelledWhere hWhere hRest (by decide)).bind fun predicates hWhere =>
        reads_pure ?_
      rw [DeleteNode.unplaced, hSubject, hWhere]

theorem reads_spelledInsert {node : InsertNode} (h : SpellsInsert tokens node) {rest : List Token}
    (hRest : EndsStatement rest) :
    Reads readInsert (tokens ++ rest) (fun found => found.unplaced = node) rest := by
  cases h with
  | @intro _ _ _ text _ _ hCollection hSetters hIdentifier =>
      have hIdentifierNext := nextIn_optionally hIdentifier hRest
      simp only [List.cons_append, List.append_assoc]
      refine (reads_keyword .insert).bind fun position _ => (reads_keyword .into).bind fun _ _ => ?_
      refine (reads_spelledName hCollection .collectionName _).bind fun name hName => ?_
      refine (reads_spelledSetters hSetters (hIdentifierNext.ne (by decide))).bind
        fun setters hSetters => ?_
      refine (reads_optionally hIdentifier (NextIn.ne hRest (by decide)) fun _ _ hBehind =>
        reads_behind hBehind fun _ _ hValue => reads_spelledValue hValue _).bind
          fun identifier hIdentifier => reads_pure ?_
      have hText : name.text = text := congrArg Name.text hName
      rw [InsertNode.unplaced, SubjectNode.unplaced, hText, hSetters, hIdentifier]

theorem reads_spelledShow {node : ShowNode} (h : SpellsShow tokens node) {rest : List Token}
    (hRest : EndsStatement rest) :
    Reads readShow (tokens ++ rest) (fun found => found.unplaced = node) rest := by
  cases h with
  | @intro word subjectTokens whereTokens _ _ hWord hSubject hWhere =>
      have hWhereNext := nextIn_optionally hWhere hRest
      simp only [List.cons_append, List.append_assoc]
      refine (reads_keyword .show).bind fun position _ => reads_peek.bind fun found hFound => ?_
      subst hFound
      simp only [List.headD_cons, hWord, if_true]
      refine (reads_skip _).bind fun _ _ => reads_peek.bind fun found hFound => ?_
      cases hSubject with
      | absent =>
          have hOther : ∀ token ∈ [Token.keyword .where, .mark .semicolon, .endOfInput],
              subjectKeywordOfToken? token = none := by
            decide
          rw [hFound, List.nil_append, hOther _ hWhereNext]
          refine (reads_pure rfl : Reads _ _ (· = none) _).bind fun subject hSubject => ?_
          refine (reads_spelledWhere hWhere hRest (by decide)).bind fun predicates hWhere =>
            reads_pure ?_
          rw [ShowNode.unplaced, hSubject, hWhere]
          rfl
      | @present _ subject hSubject =>
          obtain ⟨first, hFirst⟩ := hSubject.exists_headD (whereTokens ++ rest)
          have hSome : Reads (some <$> readSubject [.from, .within, .at])
              (subjectTokens ++ (whereTokens ++ rest))
              (fun found => found.map SubjectNode.unplaced = some subject) (whereTokens ++ rest) :=
            (reads_spelledSubject hSubject _).map fun _ => congrArg some
          rw [hFound, hFirst, subjectKeywordOfToken?_keyword]
          refine hSome.bind fun subject hSubject => ?_
          refine (reads_spelledWhere hWhere hRest (by decide)).bind fun predicates hWhere =>
            reads_pure ?_
          rw [ShowNode.unplaced, hSubject, hWhere]

/-- Every statement of the grammar is read, by the reader that its first keyword
selects. -/
theorem reads_spelledStatement {statement : Statement} (h : SpellsStatement tokens statement)
    {rest : List Token} (hRest : EndsStatement rest) :
    Reads readStatement (tokens ++ rest) (fun found => found.unplaced = statement) rest := by
  refine reads_peek.bind fun found hFound => ?_
  cases h with
  | select hNode =>
      have hHead : (tokens ++ rest).headD .endOfInput = .keyword .select := by cases hNode; rfl
      rw [hFound, hHead]
      exact (reads_spelledSelect hNode hRest).bind fun _ hFound =>
        reads_pure (congrArg Statement.select hFound)
  | update hNode =>
      have hHead : (tokens ++ rest).headD .endOfInput = .keyword .update := by cases hNode; rfl
      rw [hFound, hHead]
      exact (reads_spelledUpdate hNode hRest).bind fun _ hFound =>
        reads_pure (congrArg Statement.update hFound)
  | delete hNode =>
      have hHead : (tokens ++ rest).headD .endOfInput = .keyword .delete := by cases hNode; rfl
      rw [hFound, hHead]
      exact (reads_spelledDelete hNode hRest).bind fun _ hFound =>
        reads_pure (congrArg Statement.delete hFound)
  | insert hNode =>
      have hHead : (tokens ++ rest).headD .endOfInput = .keyword .insert := by cases hNode; rfl
      rw [hFound, hHead]
      exact (reads_spelledInsert hNode hRest).bind fun _ hFound =>
        reads_pure (congrArg Statement.insert hFound)
  | «show» hNode =>
      have hHead : (tokens ++ rest).headD .endOfInput = .keyword .show := by cases hNode; rfl
      rw [hFound, hHead]
      exact (reads_spelledShow hNode hRest).bind fun _ hFound =>
        reads_pure (congrArg Statement.show hFound)

/-- Where the text ends a statement is whole. -/
theorem reads_end {found statement : Statement} (h : found.unplaced = statement) :
    Reads (do
      match ← peek with
      | .endOfInput => return found
      | other => stop (.afterStatement other))
      [] (fun found => found.unplaced = statement) [] := by
  refine reads_peek.bind fun next hNext => ?_
  subst hNext
  exact reads_pure h

/-- A statement is read to the end of the text, with a semicolon or without
one. -/
theorem reads_spelledWhole {statement : Statement}
    (h : SpellsWhole (tokens ++ [.endOfInput]) statement) :
    Reads readWhole tokens (fun found => found.unplaced = statement) [] := by
  generalize hAll : tokens ++ [Token.endOfInput] = all at h
  cases h with
  | plain hStatement =>
      obtain rfl := List.append_cancel_right hAll
      have hEnds : EndsStatement [] := List.mem_cons_of_mem _ List.mem_cons_self
      have hRead := reads_spelledStatement hStatement hEnds
      rw [List.append_nil] at hRead
      refine hRead.bind fun found hFound => ?_
      refine (reads_accept_of_ne (by simp)).bind fun taken _ => ?_
      exact reads_end hFound
  | @closed body _ hStatement =>
      have hTokens : tokens ++ [Token.endOfInput] =
          (body ++ [.mark .semicolon]) ++ [.endOfInput] := by
        simpa using hAll
      obtain rfl := List.append_cancel_right hTokens
      have hEnds : EndsStatement [.mark .semicolon] := List.mem_cons_self
      refine (reads_spelledStatement hStatement hEnds).bind fun found hFound => ?_
      refine (reads_accept (.mark .semicolon)).bind fun taken _ => ?_
      exact reads_end hFound

/-- Tokens that the grammar allows are read as the statement that they spell. -/
theorem ofTokens_of_spellsWhole {tokens : Tokens} {tree : Statement}
    (h : SpellsWhole (tokens.toList.map Lexeme.token) tree) :
    ∃ statement, Statement.ofTokens tokens = .ok statement ∧ statement.unplaced = tree := by
  rw [Tokens.toList, List.map_append] at h
  obtain ⟨statement, rest, hRead, _, hStatement⟩ := reads_spelledWhole h tokens.lexemes rfl
  exact ⟨statement, by rw [Statement.ofTokens, StateT.run, hRead], hStatement⟩

/-- The tokens of a text are read as a statement exactly if they spell it in the
grammar, and they spell no other. -/
theorem Statement.ofTokens_iff_spellsWhole {text : String} {tokens : Tokens}
    (h : scan text = .ok tokens) :
    (∀ tree, (∃ statement, Statement.ofTokens tokens = .ok statement ∧ statement.unplaced = tree) ↔
      SpellsWhole (tokens.toList.map Lexeme.token) tree) ∧
    ∀ first second, SpellsWhole (tokens.toList.map Lexeme.token) first →
      SpellsWhole (tokens.toList.map Lexeme.token) second → first = second := by
  refine ⟨fun tree => ⟨?_, ofTokens_of_spellsWhole⟩, fun first second hFirst hSecond => ?_⟩
  · rintro ⟨statement, hStatement, rfl⟩
    exact spellsWhole_of_ofTokens h hStatement
  · obtain ⟨one, hOne, rfl⟩ := ofTokens_of_spellsWhole hFirst
    obtain ⟨other, hOther, rfl⟩ := ofTokens_of_spellsWhole hSecond
    rw [Except.ok.inj (hOne.symm.trans hOther)]

/-- A select with a nested array. -/
def nestedSelect : Statement :=
  .select
    { fields := .star
      subject := ⟨.from, "c", .start⟩
      predicates := some [⟨⟨"a", .start⟩, true, .isIn,
        .array [.number "1" .start, .array [.number "-2" .start] .start] .start⟩]
      sorters := none
      limit := none
      page := none
      group := none
      function := none
      output := none
      position := .start }

theorem spellsWhole_nestedSelect : SpellsWhole
    [.keyword .select, .mark .star, .keyword .from, .identifier "c", .keyword .where,
      .identifier "a", .mark .caret, .keyword .in, .mark .leftBracket, .number "1", .mark .comma,
      .mark .leftBracket, .mark .minus, .number "2", .mark .rightBracket, .mark .rightBracket,
      .mark .semicolon, .endOfInput] nestedSelect := by
  have hInner := SpellsValue.array (.cons (.negative "2") .nil)
  have hArray := SpellsValue.array (.cons (.number "1") (.cons hInner .nil))
  have hPredicate := SpellsPredicate.intro (.identifier "a") .present (.intro .isIn) hArray
  have hSubject : SpellsSubject [.from, .within, .at] [.keyword .from, .identifier "c"]
      ⟨.from, "c", .start⟩ :=
    .intro List.mem_cons_self (.identifier "c")
  have hSelect := SpellsSelect.intro .star hSubject (.present (.intro (.single hPredicate)))
    .absent .absent .absent .absent .absent .absent
  exact .closed (.select hSelect)

/-- An array inside an array is read, and the tokens spell no other
statement. -/
theorem Statement.ofTokens_iff_spellsWhole_nestedSelect :
    ∃ tokens, scan "select * from c where a ^ in [1, [-2]];" = .ok tokens ∧
      (∃ statement, Statement.ofTokens tokens = .ok statement ∧
        statement.unplaced = nestedSelect) ∧
      ∀ other, SpellsWhole (tokens.toList.map Lexeme.token) other → other = nestedSelect := by
  have hScan : (scan "select * from c where a ^ in [1, [-2]];").map
      (fun tokens => tokens.toList.map Lexeme.token) = .ok
        [.keyword .select, .mark .star, .keyword .from, .identifier "c", .keyword .where,
          .identifier "a", .mark .caret, .keyword .in, .mark .leftBracket, .number "1",
          .mark .comma, .mark .leftBracket, .mark .minus, .number "2", .mark .rightBracket,
          .mark .rightBracket, .mark .semicolon, .endOfInput] := by
    rfl
  cases hCase : scan "select * from c where a ^ in [1, [-2]];" with
  | error fault =>
      rw [hCase] at hScan
      cases hScan
  | ok tokens =>
      rw [hCase] at hScan
      have hSpells := spellsWhole_nestedSelect
      rw [← Except.ok.inj hScan] at hSpells
      obtain ⟨hAccepted, hUnique⟩ := ofTokens_iff_spellsWhole hCase
      exact ⟨tokens, rfl, (hAccepted nestedSelect).mpr hSpells,
        fun other hOther => hUnique other nestedSelect hOther hSpells⟩

end DocQuery.Grammar
