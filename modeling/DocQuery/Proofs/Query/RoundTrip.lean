import DocQuery.Proofs.Grammar.Checking
import DocQuery.Proofs.Grammar.Completeness
import DocQuery.Proofs.Query.Values

/-! Canonical texts are read back. The tokens of each part of a query spell a
part of a statement that means it, so that the whole text spells a statement
that means the query; and a text is read as the statement that it spells. -/
namespace DocQuery

namespace Grammar

theorem expresses_property (property : String) :
    Expresses SpellsName (fun property name => name.text = property) [.string property] property :=
  ⟨_, .string property, rfl⟩

theorem spellsMarker_of_isLocal (isLocal : Bool) :
    SpellsMarker (if isLocal then [.mark .caret] else []) isLocal := by
  cases isLocal with
  | false => exact .absent
  | true => exact .present

/-- `like` is local in the text already, so the check that makes it local
changes nothing. -/
theorem expresses_clause {clause : Clause} (h : clause.WellFormed) :
    Expresses SpellsPredicate (fun clause node => node.toClause = .ok clause) clause.tokens
      clause := by
  obtain ⟨value, hSpells, hValue⟩ := expresses_literal clause.value h.1
  have hPredicate := SpellsPredicate.intro (.string clause.property)
    (spellsMarker_of_isLocal clause.isLocal) (.intro clause.operator) hSpells
  have hLocal : (clause.isLocal || clause.operator == .like) = clause.isLocal := by
    cases hCase : clause.isLocal with
    | true => rfl
    | false => simpa using fun hLike => by simp [h.2 hLike] at hCase
  have hTokens : clause.tokens = [.string clause.property] ++
      ((if clause.isLocal then [.mark .caret] else []) ++
        ([clause.operator.token] ++ clause.value.tokens)) := by
    simp [Clause.tokens, markedTokens]
  rw [hTokens]
  refine ⟨_, hPredicate, ?_⟩
  simp only [PredicateNode.toClause, hValue]
  exact congrArg (fun isLocal => Except.ok { clause with isLocal := isLocal }) hLocal

theorem expresses_setter {setter : Setter} (h : setter.WellFormed) :
    Expresses SpellsSetter (fun setter node => node.toSetter = .ok setter) setter.tokens
      setter := by
  obtain ⟨value, hSpells, hValue⟩ := expresses_literal setter.value h
  refine ⟨_, .intro (.string setter.property) hSpells, ?_⟩
  simp only [SetterNode.toSetter, hValue]
  rfl

/-- Every sort key is written with its direction. -/
theorem expresses_orderKey (key : OrderKey) :
    Expresses SpellsSorter (fun key node => node.toOrderKey = key) key.tokens key := by
  have hTokens : key.tokens = [.string key.property] ++
      ((if key.isLocal then [.mark .caret] else []) ++ [.keyword key.direction.keyword]) := by
    simp [OrderKey.tokens, markedTokens]
  rw [hTokens]
  exact ⟨_, .intro (.string key.property) (spellsMarker_of_isLocal key.isLocal)
    (.present (.intro key.direction)), rfl⟩

/-- A subject is determined by its keyword and its path, since the path is
trimmed already. -/
theorem toSubject_eq {subject : Subject} (h : subject.WellFormed) {node : SubjectNode}
    (hKeyword : node.keyword = subject.kind.subjectKeyword) (hName : node.name = subject.path) :
    node.toSubject = subject := by
  obtain ⟨path, kind⟩ := subject
  cases kind with
  | collection => simp [SubjectNode.toSubject, hKeyword, hName, SubjectKind.subjectKeyword]
  | collectionGroup => simp [SubjectNode.toSubject, hKeyword, hName, SubjectKind.subjectKeyword]
  | document =>
      obtain ⟨hTrimmed, hDocument⟩ := h rfl
      simp only at hTrimmed hDocument
      simp [SubjectNode.toSubject, hKeyword, hName, SubjectKind.subjectKeyword,
        Path.trim_eq_self hTrimmed, hDocument]

theorem subjectKeyword_mem (subject : Subject) : subject.kind.subjectKeyword ∈
    [SubjectKeyword.from, SubjectKeyword.within, SubjectKeyword.at] := by
  cases subject.kind <;> simp [SubjectKind.subjectKeyword]

/-- A subject is written with its keyword where a statement allows it. -/
theorem expresses_subject {subject : Subject} (h : subject.WellFormed)
    {allowed : List SubjectKeyword} (hAllowed : subject.kind.subjectKeyword ∈ allowed) :
    Expresses (SpellsSubject allowed) (fun subject node => node.toSubject = subject) subject.tokens
      subject :=
  ⟨_, .intro hAllowed (.string subject.path), toSubject_eq h rfl rfl⟩

theorem expresses_projection {projection : Projection} (h : projection.WellFormed) :
    Expresses SpellsFields
      (fun projection node => ∀ position, node.toProjection position = .ok projection)
      projection.tokens projection := by
  cases projection with
  | all => exact ⟨.star, .star, fun _ => rfl⟩
  | only properties =>
      obtain ⟨names, hSpells, hNames⟩ :=
        expresses_separated h fun property _ => expresses_property property
      refine ⟨.list names, .list hSpells, fun position => ?_⟩
      have hTexts := map_eq_of_forall₂ hNames
      cases names with
      | nil => exact absurd hTexts.symm h
      | cons name more => exact congrArg (fun texts => Except.ok (Projection.only texts)) hTexts

/-- Parts that are accepted one by one are accepted together. -/
theorem mapM_eq_ok {ε α β : Type} {check : α → Except ε β} {items : List β} {nodes : List α}
    (h : List.Forall₂ (fun item node => check node = .ok item) items nodes) :
    nodes.mapM check = .ok items := by
  induction h with
  | nil => rfl
  | cons hFirst _ ih =>
      rw [List.mapM_cons, hFirst, ih]
      rfl

theorem optional_mapM_eq_ok {ε α β : Type} {check : α → Except ε β} {item : Option β}
    {node : Option α} (h : Option.Rel (fun item node => check node = .ok item) item node) :
    node.mapM check = .ok item := by
  cases h with
  | none => rfl
  | some hCheck =>
      rw [Option.mapM_some, hCheck]
      rfl

theorem optional_map_eq {α β : Type} {f : α → β} {item : Option β} {node : Option α}
    (h : Option.Rel (fun item node => f node = item) item node) : node.map f = item := by
  cases h with
  | none => rfl
  | some hSame => rw [Option.map_some, hSame]

/-- Conditions are written behind `where`, and if there are none nothing is
written. -/
theorem expresses_clauses {clauses : List Clause} (h : ∀ clause ∈ clauses, clause.WellFormed) :
    Expresses SpellsWhere
      (fun clauses found => clausesOf found = .ok clauses ∧ (clauses = [] → found = none))
      (clausesTokens clauses) clauses := by
  obtain ⟨found, hSpells, hFound, hNone⟩ := 
    expresses_list [.keyword .where] (.keyword .and) Clause.tokens fun hNonempty =>
      (expresses_separated hNonempty fun clause hClause =>
        expresses_clause (h clause hClause)).behind .where
  exact ⟨found, hSpells, mapM_eq_ok hFound, hNone⟩

theorem expresses_setters {setters : List Setter} (h : ∀ setter ∈ setters, setter.WellFormed)
    (hNonempty : setters ≠ []) :
    Expresses SpellsSetters (fun setters nodes => nodes.mapM SetterNode.toSetter = .ok setters)
      (.keyword .set :: settersTokens setters) setters :=
  ((expresses_separated hNonempty fun setter hSetter =>
    expresses_setter (h setter hSetter)).behind .set).mono fun _ => mapM_eq_ok

/-- A number of documents is written in digits, without a sign. -/
theorem expresses_count {n : Nat} (h : n < 2 ^ 63) (clause : Keyword) :
    Expresses SpellsValue (fun n node => node.evaluateCount clause = .ok n) [.number n.repr] n := by
  have hRange : (Literal.integer n).WellFormed := by
    simp only [Literal.WellFormed, Literal.inRange, Bool.and_eq_true, decide_eq_true_eq]
    omega
  have hTokens : (Literal.integer n).tokens = [.number n.repr] := by
    have hSign : decide ((n : Int) < 0) = false := decide_eq_false (by omega)
    rw [Literal.tokens, hSign, Int.natAbs_natCast, Nat.repr_eq_ofList_toDigits]
    rfl
  obtain ⟨node, hSpells, hNode⟩ := expresses_literal _ hRange
  rw [hTokens] at hSpells
  refine ⟨node, hSpells, ?_⟩
  simp only [ValueNode.evaluateCount, hNode]
  rfl

/-- A page holds a document, so its size is accepted. -/
theorem expresses_page {n : Nat} (h : 0 < n ∧ n < 2 ^ 63) :
    Expresses SpellsValue (fun n node => node.evaluatePage = .ok n) [.number n.repr] n := by
  refine (expresses_count h.2 .page).mono fun node hNode => ?_
  rw [ValueNode.evaluatePage, hNode]
  change (if n = 0 then _ else _) = _
  rw [if_neg (Nat.ne_of_gt h.1)]
  rfl

/-- A function is known by the word that it is written with. -/
theorem aggregateOf_word (aggregate : Aggregate) (position : Position) :
    aggregateOf ⟨aggregate.word, position⟩ = .ok aggregate := by
  have hFold : Text.foldWord aggregate.word = aggregate.word := by
    cases aggregate <;> decide +kernel
  rw [aggregateOf, hFold]
  cases aggregate <;> rfl

theorem formatOf_word (format : Format) (position : Position) :
    formatOf ⟨format.word, position⟩ = .ok format := by
  have hFold : Text.foldWord format.word = format.word := by
    cases format <;> decide +kernel
  rw [formatOf, hFold]
  cases format <;> rfl

/-- Where an output clause sends the result, as it is written. -/
def OutputTarget.of (output : OutputClause) : Option OutputTarget :=
  match output.kind with
  | .inline => none
  | .clipboard => some .clipboard
  | .path => some (.path (output.destination.getD ""))

/-- The word of a function is written in parentheses. -/
theorem expresses_function (aggregate : Aggregate) :
    Expresses SpellsFunction (fun aggregate name => aggregateOf name = .ok aggregate)
      [.mark .leftParen, .identifier aggregate.word, .mark .rightParen] aggregate :=
  ⟨_, .intro aggregate.word, aggregateOf_word aggregate .start⟩

theorem spellsTarget_of (output : OutputClause) :
    Optionally SpellsTarget output.targetTokens (OutputTarget.of output) := by
  obtain ⟨kind, format, destination⟩ := output
  cases kind with
  | inline => exact .absent
  | clipboard => exact .present (.clipboard (by decide +kernel))
  | path => exact .present (.path _)

/-- No format is written like the clipboard. -/
theorem expresses_format (format : Format) :
    Expresses SpellsFormat (fun format name => formatOf name = .ok format)
      [.identifier format.word] format := by
  have hWord : isClipboard format.word = false := by
    cases format <;> decide +kernel
  exact ⟨_, .intro hWord, formatOf_word format .start⟩

/-- The format and the target make up the whole clause: there is a destination
only for a path. -/
theorem toOutput_eq {output : OutputClause} (h : output.WellFormed) {node : OutputNode}
    (hFormat : node.format.mapM formatOf = .ok output.format)
    (hTarget : node.target = OutputTarget.of output) : node.toOutput = .ok output := by
  rw [OutputNode.toOutput, hFormat, hTarget]
  obtain ⟨kind, format, destination⟩ := output
  have hDestination := h.destination
  cases kind with
  | inline =>
      cases destination with
      | none => rfl
      | some path => simp at hDestination
  | clipboard =>
      cases destination with
      | none => rfl
      | some path => simp at hDestination
  | path =>
      cases destination with
      | none => simp at hDestination
      | some path => rfl

/-- A result that goes back has a format, so the clause names something. -/
theorem output_named {output : OutputClause} (h : output.WellFormed) :
    output.format ≠ none ∨ OutputTarget.of output ≠ none := by
  obtain ⟨kind, format, destination⟩ := output
  cases kind with
  | inline => exact .inl (Option.isSome_iff_ne_none.mp (h.format rfl))
  | clipboard => exact .inr (Option.some_ne_none _)
  | path => exact .inr (Option.some_ne_none _)

theorem expresses_output {output : OutputClause} (h : output.WellFormed) :
    Expresses (Behind .output SpellsOutput) (fun clause node => node.toOutput = .ok clause)
      output.tokens output := by
  obtain ⟨format, hSpells, hFormat⟩ := @expresses_optional _ _ _ _ []
    (fun format : Format => [.identifier format.word]) output.format
    fun format _ => expresses_format format
  have hNamed : format ≠ none ∨ OutputTarget.of output ≠ none := by
    refine (output_named h).imp_left fun hSome hNone => hSome ?_
    rw [hNone] at hFormat
    generalize output.format = written at hFormat
    cases hFormat
    rfl
  exact ⟨_, .intro (.intro hSpells (spellsTarget_of output) hNamed),
    toOutput_eq h (optional_mapM_eq_ok hFormat) rfl⟩

/-- A node each part of which means the part of a select means the select. -/
theorem toSelect_eq {q : Select} (h : q.WellFormed) {node : SelectNode}
    (hFields : ∀ position, node.fields.toProjection position = .ok q.projection)
    (hSubject : node.subject.toSubject = q.subject)
    (hClauses : clausesOf node.predicates = .ok q.clauses ∧
      (q.clauses = [] → node.predicates = none))
    (hOrder : (node.sorters.getD []).map SorterNode.toOrderKey = q.order)
    (hLimit : node.limit.mapM (ValueNode.evaluateCount .limit) = .ok q.limit)
    (hPage : node.page.mapM ValueNode.evaluatePage = .ok q.page)
    (hGroup : node.group.map Name.text = q.group)
    (hFunction : node.function.mapM aggregateOf = .ok q.aggregate)
    (hOutput : node.output.mapM OutputNode.toOutput = .ok q.output) :
    node.toSelect = .ok q := by
  have hAllowed : ¬ (q.subject.kind = .document ∧ node.predicates.isSome = true) := by
    rintro ⟨hDocument, hSome⟩
    rw [hClauses.2 (h.noClauses hDocument)] at hSome
    cases hSome
  unfold SelectNode.toSelect
  simp only [hSubject, hAllowed, if_false, hFields, hClauses.1, hOrder, hLimit, hPage, hGroup,
    hFunction, hOutput]
  rfl

/-- The parts of a select are written in the order of the grammar. -/
theorem expresses_select {q : Select} (h : q.WellFormed) :
    Expresses SpellsSelect (fun q node => node.toSelect = .ok q) q.tokens q := by
  obtain ⟨fields, hFields, hProjection⟩ := expresses_projection h.projection
  obtain ⟨subject, hSubject, hMeant⟩ := expresses_subject h.subject (subjectKeyword_mem q.subject)
  obtain ⟨predicates, hWhere, hClauses⟩ := expresses_clauses h.clauses
  obtain ⟨sorters, hOrder, hKeys, -⟩ := 
    expresses_list [.keyword .order, .keyword .by] (.mark .comma) OrderKey.tokens fun hNonempty =>
      ((expresses_separated hNonempty fun key (_ : key ∈ q.order) =>
        expresses_orderKey key).behind .by).behind .order
  obtain ⟨limit, hLimit, hCount⟩ := 
    expresses_optional [.keyword .limit] (fun n => [.number n.repr]) fun n hn =>
      (expresses_count (h.limit n hn) .limit).behind .limit
  obtain ⟨page, hPage, hSize⟩ := 
    expresses_optional [.keyword .page] (fun n => [.number n.repr]) fun n hn =>
      (expresses_page (h.page n hn)).behind .page
  obtain ⟨group, hGroup, hProperty⟩ := 
    expresses_optional [.keyword .group, .keyword .by] (fun property => [.string property])
      fun property (_ : property ∈ q.group) =>
        ((expresses_property property).behind .by).behind .group
  obtain ⟨function, hFunction, hAggregate⟩ := 
    expresses_optional [.keyword .function] (fun aggregate : Aggregate =>
      [.mark .leftParen, .identifier aggregate.word, .mark .rightParen])
      fun aggregate (_ : aggregate ∈ q.aggregate) =>
        (expresses_function aggregate).behind .function
  obtain ⟨output, hOutput, hResult⟩ := 
    expresses_optional [] OutputClause.tokens fun output hSome =>
      expresses_output (h.output output hSome)
  rw [optionalTokens_nil] at hOutput
  exact ⟨_, .intro hFields hSubject hWhere hOrder hLimit hPage hGroup hFunction hOutput,
    toSelect_eq h hProjection hMeant hClauses (map_eq_of_forall₂ hKeys)
      (optional_mapM_eq_ok hCount) (optional_mapM_eq_ok hSize) (optional_map_eq hProperty)
      (optional_mapM_eq_ok hAggregate) (optional_mapM_eq_ok hResult)⟩

/-- What an update or a delete requires of its where clause is there. -/
theorem requireWhere_eq {subject : Subject} {clauses : List Clause}
    (h : WellNarrowed subject clauses)
    (statement : Keyword) {predicates : Option (List PredicateNode)}
    (hClauses : clausesOf predicates = .ok clauses) (position : Position) :
    requireWhere statement subject predicates position = .ok () := by
  cases hCase : predicates.getD [] with
  | cons node more => simp [requireWhere, hCase]
  | nil =>
      rw [clausesOf, hCase] at hClauses
      cases hKind : subject.kind with
      | collection => exact absurd (Except.ok.inj hClauses).symm (h.narrowed hKind)
      | collectionGroup => exact absurd hKind h.kind_ne_group
      | document => simp [requireWhere, hKind]

/-- Neither an update nor a delete is about a group. -/
theorem subjectKeyword_mem_narrowed {subject : Subject} {clauses : List Clause}
    (h : WellNarrowed subject clauses) :
    subject.kind.subjectKeyword ∈ [SubjectKeyword.from, SubjectKeyword.at] := by
  cases hKind : subject.kind with
  | collection => simp [SubjectKind.subjectKeyword]
  | collectionGroup => exact absurd hKind h.kind_ne_group
  | document => simp [SubjectKind.subjectKeyword]

theorem expresses_update {q : Update} (h : q.WellFormed) :
    Expresses SpellsUpdate (fun q node => node.toUpdate = .ok q) q.tokens q := by
  obtain ⟨subject, hSubject, hMeant⟩ := expresses_subject h.subject_wellFormed
    (subjectKeyword_mem_narrowed h.toWellNarrowed)
  obtain ⟨nodes, hSpells, hSetters⟩ := expresses_setters h.setters h.nonempty
  obtain ⟨predicates, hWhere, hClauses, -⟩ := expresses_clauses h.clauses_wellFormed
  refine ⟨_, .intro hSubject hSpells hWhere, ?_⟩
  have hRequired := requireWhere_eq h.toWellNarrowed .update hClauses .start
  simp only [UpdateNode.toUpdate, hMeant, hRequired, hSetters, hClauses]
  rfl

theorem expresses_delete {q : Delete} (h : q.WellFormed) :
    Expresses SpellsDelete (fun q node => node.toDelete = .ok q) q.tokens q := by
  obtain ⟨subject, hSubject, hMeant⟩ := expresses_subject h.subject_wellFormed
    (subjectKeyword_mem_narrowed h)
  obtain ⟨predicates, hWhere, hClauses, -⟩ := expresses_clauses h.clauses_wellFormed
  refine ⟨_, .intro hSubject hWhere, ?_⟩
  have hRequired := requireWhere_eq h .delete hClauses .start
  simp only [DeleteNode.toDelete, hMeant, hRequired, hClauses]
  rfl

/-- An identifier is written as a quoted text, whatever it is. -/
theorem expresses_identifier (identifier : String) :
    Expresses SpellsValue (fun identifier node => identifierOf node = .ok identifier)
      [.string identifier] identifier :=
  ⟨_, .string identifier, rfl⟩

theorem expresses_insert {q : Insert} (h : q.WellFormed) :
    Expresses SpellsInsert (fun q node => node.toInsert = .ok q) q.tokens q := by
  obtain ⟨nodes, hSpells, hSetters⟩ := expresses_setters h.setters h.nonempty
  obtain ⟨identifier, hIdentified, hIdentifier⟩ := 
    expresses_optional [.keyword .identified, .keyword .by] (fun identifier => [.string identifier])
      fun identifier (_ : identifier ∈ q.identifier) =>
        ((expresses_identifier identifier).behind .by).behind .identified
  refine ⟨_, .intro (.string q.collection) hSpells hIdentified, ?_⟩
  simp only [InsertNode.toInsert, optional_mapM_eq_ok hIdentifier, hSetters,
    Path.trim_eq_self h.collection]
  rfl

theorem expresses_show {q : Show} (h : q.WellFormed) :
    Expresses SpellsShow (fun q node => node.toShow = .ok q) q.tokens q := by
  obtain ⟨subject, hSubject, hMeant⟩ := 
    expresses_optional [] Subject.tokens fun subject hSome =>
      expresses_subject (h subject hSome) (subjectKeyword_mem subject)
  have hWord : Text.sameWord "collections" "collections" = true := by decide +kernel
  have hSpells := SpellsShow.intro hWord hSubject .absent
  rw [List.append_nil] at hSpells
  refine ⟨_, hSpells, ?_⟩
  simp only [ShowNode.toShow, optional_map_eq hMeant]
  rfl

/-- The tokens of a well-formed query spell a statement that means the query. -/
theorem expresses_query {q : Query} (h : q.WellFormed) :
    Expresses SpellsStatement (fun q statement => statement.toQuery = .ok q) q.tokens q := by
  cases q with
  | select q =>
      obtain ⟨node, hSpells, hNode⟩ := expresses_select h
      refine ⟨.select node, .select hSpells, ?_⟩
      simp only [Statement.toQuery, hNode]
      rfl
  | update q =>
      obtain ⟨node, hSpells, hNode⟩ := expresses_update h
      refine ⟨.update node, .update hSpells, ?_⟩
      simp only [Statement.toQuery, hNode]
      rfl
  | delete q =>
      obtain ⟨node, hSpells, hNode⟩ := expresses_delete h
      refine ⟨.delete node, .delete hSpells, ?_⟩
      simp only [Statement.toQuery, hNode]
      rfl
  | insert q =>
      obtain ⟨node, hSpells, hNode⟩ := expresses_insert h
      refine ⟨.insert node, .insert hSpells, ?_⟩
      simp only [Statement.toQuery, hNode]
      rfl
  | «show» q =>
      obtain ⟨node, hSpells, hNode⟩ := expresses_show h
      refine ⟨.show node, .show hSpells, ?_⟩
      simp only [Statement.toQuery, hNode]
      rfl

end Grammar

/-- The canonical text of a well-formed query means this query. -/
theorem Query.ofText_text {q : Query} (h : q.WellFormed) : Query.ofText q.text = .ok q := by
  obtain ⟨tokens, hScan, hTokens⟩ := (scans_text h).scan_eq
  obtain ⟨tree, hSpells, hTree⟩ := Grammar.expresses_query h
  have hWhole : Grammar.SpellsWhole (tokens.toList.map Grammar.Lexeme.token) tree := by
    rw [Grammar.Tokens.toList, List.map_append, hTokens]
    exact .plain hSpells
  obtain ⟨statement, hRead, rfl⟩ := Grammar.ofTokens_of_spellsWhole hWhole
  rw [Query.ofText, Grammar.Statement.ofText, hScan]
  change (Grammar.Statement.ofTokens tokens >>= Grammar.Statement.toQuery) = _
  rw [hRead]
  exact (Grammar.checks_toQuery statement).endAlike.eq_ok_iff.mp hTree

/-- Reading and canonical texts are inverse on the whole language: a text means
well-formed queries only, and every well-formed query is what its canonical text
means. -/
theorem Query.reading_inverts_text :
    (∀ (text : String) (q : Query), Query.ofText text = .ok q → q.WellFormed) ∧
      ∀ q : Query, q.WellFormed → Query.ofText q.text = .ok q :=
  ⟨fun _ _ => wellFormed_of_ofText, fun _ => ofText_text⟩

/-- A select with quotes and line ends in its names, nested arrays and a
negative float. -/
def Query.quotedSelect : Query :=
  .select
    { subject := ⟨"/users//", .collection⟩
      clauses :=
        [⟨"say \"x\"", .isIn, .array [.array [.integer (-7), .null], .string "\\ '\n"], false⟩,
        ⟨"score", .lessThan, .float (.finite ⟨true, 4612811918334230528, by decide⟩), true⟩,
        ⟨"", .like, .string "%", true⟩]
      projection := .only ["from", ""]
      limit := some 0
      page := some 7
      order := [⟨"a", .desc, true⟩, ⟨"b", .asc, false⟩]
      group := some "true"
      aggregate := some .count
      output := some ⟨.path, none, some ""⟩ }

/-- A path with slashes at its ends is read without them; a select with quotes
and nested arrays is read from its own text. -/
theorem Query.reading_inverts_text_quotedSelect :
    (Query.ofText "delete at \"/a/b/\"" = .ok (.delete ⟨⟨"a/b", .document⟩, []⟩) ∧
      Query.WellFormed (.delete ⟨⟨"a/b", .document⟩, []⟩)) ∧
    (quotedSelect.WellFormed ∧ Query.ofText quotedSelect.text = .ok quotedSelect) := by
  have hRead : Query.ofText "delete at \"/a/b/\"" = .ok (.delete ⟨⟨"a/b", .document⟩, []⟩) :=
    rfl
  have hSelect : quotedSelect.WellFormed :=
    { subject := by simp [Subject.WellFormed]
      projection := List.cons_ne_nil _ _
      clauses := by
        simp [Clause.WellFormed, Literal.WellFormed, Literal.AllWellFormed,
          Literal.inRange]
      noClauses := by simp
      limit := by simp
      page := by simp
      output := by
        rintro output ⟨⟩
        exact ⟨by simp, by simp⟩ }
  exact ⟨⟨hRead, reading_inverts_text.1 _ _ hRead⟩, hSelect, reading_inverts_text.2 _ hSelect⟩

end DocQuery
