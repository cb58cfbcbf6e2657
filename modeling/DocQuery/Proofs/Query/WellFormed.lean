import DocQuery.Grammar.Meaning
import DocQuery.Proofs.Grammar.Reads
import DocQuery.Proofs.Text.Trim
import Mathlib.Algebra.Group.Nat.Defs

/-! The queries that texts can mean, and the proof that every readable statement
with a meaning means one of these. A readable statement has no empty list, and
the checks of the meaning do the rest. -/
namespace DocQuery

mutual

/-- Every integer is in range and every float is finite, at any depth. -/
def Literal.WellFormed : Literal → Prop
  | .null => True
  | .bool _ => True
  | .integer n => Literal.inRange n = true
  | .float x => ∃ y, x = .finite y
  | .string _ => True
  | .array items => Literal.AllWellFormed items

def Literal.AllWellFormed : List Literal → Prop
  | [] => True
  | item :: rest => item.WellFormed ∧ Literal.AllWellFormed rest

end

/-- A document has a trimmed path of even depth. Collections and groups may have
any path. -/
def Subject.WellFormed (subject : Subject) : Prop :=
  subject.kind = .document → Path.Trimmed subject.path ∧ Path.isDocument subject.path = true

/-- The store cannot evaluate `like`. -/
def Clause.WellFormed (clause : Clause) : Prop :=
  clause.value.WellFormed ∧ (clause.operator = .like → clause.isLocal = true)

def Setter.WellFormed (setter : Setter) : Prop :=
  setter.value.WellFormed

/-- A select names at least one field. -/
def Projection.WellFormed : Projection → Prop
  | .all => True
  | .only properties => properties ≠ []

/-- There is a destination exactly for a path, and a format if the result goes
back. -/
structure OutputClause.WellFormed (output : OutputClause) : Prop where
  destination : output.destination.isSome = true ↔ output.kind = .path
  format : output.kind = .inline → output.format.isSome = true

structure Select.WellFormed (q : Select) : Prop where
  subject : q.subject.WellFormed
  projection : q.projection.WellFormed
  clauses : ∀ clause ∈ q.clauses, clause.WellFormed
  noClauses : q.subject.kind = .document → q.clauses = []
  limit : ∀ n ∈ q.limit, n < 2 ^ 63
  page : ∀ n ∈ q.page, 0 < n ∧ n < 2 ^ 63
  output : ∀ output ∈ q.output, output.WellFormed

/-- What update and delete have in common: one collection with a condition, or
one document. -/
structure WellNarrowed (subject : Subject) (clauses : List Clause) : Prop where
  subject_wellFormed : subject.WellFormed
  kind_ne_group : subject.kind ≠ .collectionGroup
  clauses_wellFormed : ∀ clause ∈ clauses, clause.WellFormed
  narrowed : subject.kind = .collection → clauses ≠ []

structure Update.WellFormed (q : Update) : Prop extends WellNarrowed q.subject q.clauses where
  setters : ∀ setter ∈ q.setters, setter.WellFormed
  nonempty : q.setters ≠ []

def Delete.WellFormed (q : Delete) : Prop :=
  WellNarrowed q.subject q.clauses

structure Insert.WellFormed (q : Insert) : Prop where
  collection : Path.Trimmed q.collection
  setters : ∀ setter ∈ q.setters, setter.WellFormed
  nonempty : q.setters ≠ []

def Show.WellFormed (q : Show) : Prop :=
  ∀ subject ∈ q.subject, subject.WellFormed

/-- The queries that texts can mean. -/
def Query.WellFormed : Query → Prop
  | .select q => q.WellFormed
  | .update q => q.WellFormed
  | .delete q => q.WellFormed
  | .insert q => q.WellFormed
  | .show q => q.WellFormed

namespace Grammar

/-- What a check has let through. -/
theorem passed {ε α β : Type} {check : Except ε α} {next : α → Except ε β} {result : β}
    (h : (check >>= next) = .ok result) : ∃ a, check = .ok a ∧ next a = .ok result := by
  cases hCheck : check with
  | error fault =>
      rw [hCheck] at h
      cases h
  | ok a => exact ⟨a, rfl, by rwa [hCheck] at h⟩

/-- What digits are read as can be written with digits again. -/
theorem literalOfDigits_wellFormed {digits : String} {literal : Literal}
    (h : literalOfDigits digits = .ok literal) : literal.WellFormed := by
  unfold literalOfDigits at h
  split at h
  rename_i negative unsigned _
  by_cases hReal : (digits.toList.any fun c => c == '.' || c == 'e' || c == 'E') = true
  · rw [if_pos hReal] at h
    cases hDecimal : Decimal.ofText? unsigned with
    | none => simp [hDecimal] at h
    | some decimal =>
        cases hDouble : Double.ofDecimal? negative decimal with
        | none => simp [hDecimal, hDouble] at h
        | some x =>
            simp only [hDecimal, hDouble, Except.ok.injEq] at h
            exact h ▸ ⟨x, rfl⟩
  · rw [if_neg hReal] at h
    dsimp only at h
    generalize (if negative = true then -(Decimal.value unsigned : Int)
      else Decimal.value unsigned) = n at h
    by_cases hRange : Literal.inRange n = true
    · rw [if_pos hRange] at h
      obtain rfl := Except.ok.inj h
      exact hRange
    · rw [if_neg hRange] at h
      cases h

mutual

/-- What a value evaluates to is well formed, and so are the items of an
array. -/
theorem evaluate_wellFormed (node : ValueNode) {literal : Literal}
    (h : node.evaluate = .ok literal) : literal.WellFormed := by
  cases node with
  | string text position =>
      cases h
      trivial
  | number digits position =>
      simp only [ValueNode.evaluate] at h
      split at h
      · rename_i found hFound
        cases h
        exact literalOfDigits_wellFormed hFound
      · cases h
  | bool b position =>
      cases h
      trivial
  | null position =>
      cases h
      trivial
  | array items position =>
      simp only [ValueNode.evaluate] at h
      obtain ⟨values, hValues, hLiteral⟩ := passed h
      cases hLiteral
      exact evaluateAll_wellFormed items hValues
  | name text position => cases h

theorem evaluateAll_wellFormed (items : List ValueNode) {values : List Literal}
    (h : ValueNode.evaluateAll items = .ok values) : Literal.AllWellFormed values := by
  cases items with
  | nil =>
      cases h
      trivial
  | cons item rest =>
      simp only [ValueNode.evaluateAll] at h
      obtain ⟨first, hFirst, hMore⟩ := passed h
      obtain ⟨more, hRest, hValues⟩ := passed hMore
      cases hValues
      exact ⟨evaluate_wellFormed item hFirst, evaluateAll_wellFormed rest hRest⟩

end

/-- The path of a subject is trimmed when it is read. -/
theorem toSubject_wellFormed (node : SubjectNode) : node.toSubject.WellFormed := by
  intro hDocument
  cases hKeyword : node.keyword with
  | «from» => simp [SubjectNode.toSubject, hKeyword] at hDocument
  | within => simp [SubjectNode.toSubject, hKeyword] at hDocument
  | «at» =>
      simp only [SubjectNode.toSubject, hKeyword] at hDocument ⊢
      refine ⟨Path.trimmed_trim _, ?_⟩
      by_contra hNot
      rw [if_neg hNot] at hDocument
      cases hDocument

/-- Only `within` makes a group. -/
theorem toSubject_kind_ne {node : SubjectNode} (h : node.keyword ≠ .within) :
    node.toSubject.kind ≠ .collectionGroup := by
  intro hGroup
  cases hKeyword : node.keyword with
  | «from» => simp [SubjectNode.toSubject, hKeyword] at hGroup
  | within => exact h hKeyword
  | «at» =>
      simp only [SubjectNode.toSubject, hKeyword] at hGroup
      split at hGroup <;> cases hGroup

theorem toClause_wellFormed {node : PredicateNode} {clause : Clause}
    (h : node.toClause = .ok clause) : clause.WellFormed := by
  obtain ⟨value, hValue, hClause⟩ := passed h
  cases hClause
  exact ⟨evaluate_wellFormed _ hValue, fun hLike => by simp_all⟩

theorem toSetter_wellFormed {node : SetterNode} {setter : Setter}
    (h : node.toSetter = .ok setter) : setter.WellFormed := by
  obtain ⟨value, hValue, hSetter⟩ := passed h
  cases hSetter
  exact evaluate_wellFormed _ hValue

/-- Every result of a list of checks comes from one of them, and there are as
many. -/
theorem mapM_ok {ε α β : Type} {check : α → Except ε β} {items : List α} {results : List β}
    (h : items.mapM check = .ok results) :
    List.Forall₂ (fun item result => check item = .ok result) items results := by
  induction items generalizing results with
  | nil =>
      cases h
      exact .nil
  | cons item rest ih =>
      rw [List.mapM_cons] at h
      obtain ⟨first, hFirst, hMore⟩ := passed h
      obtain ⟨more, hRest, hResults⟩ := passed hMore
      cases hResults
      exact .cons hFirst (ih hRest)

/-- What holds of every single result holds of all results. -/
theorem forall_of_mapM_ok {ε α β : Type} {check : α → Except ε β} {good : β → Prop}
    {items : List α} {results : List β} (h : items.mapM check = .ok results)
    (hGood : ∀ item result, check item = .ok result → good result) :
    ∀ result ∈ results, good result := by
  have hPairs := mapM_ok h
  clear h
  induction hPairs with
  | nil => simp
  | cons hFirst _ ih => exact List.forall_mem_cons.mpr ⟨hGood _ _ hFirst, ih⟩

/-- As many results are there as parts. -/
theorem ne_nil_of_mapM_ok {ε α β : Type} {check : α → Except ε β} {items : List α}
    {results : List β} (h : items.mapM check = .ok results) (hItems : items ≠ []) :
    results ≠ [] := by
  rintro rfl
  exact hItems (List.forall₂_nil_right_iff.mp (mapM_ok h))

/-- What holds of every successful check holds of an optional one. -/
theorem forall_of_optional_ok {ε α β : Type} {check : α → Except ε β} {good : β → Prop}
    {item : Option α} {result : Option β} (h : item.mapM check = .ok result)
    (hGood : ∀ a ∈ item, ∀ b, check a = .ok b → good b) : ∀ b ∈ result, good b := by
  cases item with
  | none =>
      cases h
      simp
  | some a =>
      obtain ⟨b, hCheck, hResult⟩ := passed h
      cases hResult
      intro c hc
      cases hc
      exact hGood a rfl b hCheck

/-- The conditions that are read are well formed. -/
theorem clausesOf_wellFormed {predicates : Option (List PredicateNode)} {clauses : List Clause}
    (h : clausesOf predicates = .ok clauses) : ∀ clause ∈ clauses, clause.WellFormed :=
  forall_of_mapM_ok h fun _ _ => toClause_wellFormed

/-- A count is a whole number in the range of integers. -/
theorem evaluateCount_lt {clause : Keyword} {node : ValueNode} {n : Nat}
    (h : node.evaluateCount clause = .ok n) : n < 2 ^ 63 := by
  obtain ⟨literal, hLiteral, hCount⟩ := passed h
  have hWellFormed := evaluate_wellFormed node hLiteral
  split at hCount
  · cases hCount
    simp only [Literal.WellFormed, Literal.inRange, Bool.and_eq_true, decide_eq_true_eq,
      Int.ofNat_eq_natCast] at hWellFormed
    omega
  · cases hCount

/-- A page that is accepted holds a document, and its size is in range. -/
theorem evaluatePage_bounds {node : ValueNode} {n : Nat} (h : node.evaluatePage = .ok n) :
    0 < n ∧ n < 2 ^ 63 := by
  obtain ⟨size, hSize, hPage⟩ := passed h
  split at hPage
  · cases hPage
  · rename_i hNonzero
    cases hPage
    exact ⟨Nat.pos_of_ne_zero hNonzero, evaluateCount_lt hSize⟩

/-- An output clause as readers give it names a format, a target or both. -/
def OutputNode.Readable (node : OutputNode) : Prop :=
  node.format.isSome = true ∨ node.target.isSome = true

/-- An output that is read has a format or a target. -/
theorem toOutput_wellFormed {node : OutputNode} {output : OutputClause}
    (hReadable : node.Readable) (h : node.toOutput = .ok output) : output.WellFormed := by
  obtain ⟨format, hFormat, hOutput⟩ := passed h
  have hSome : node.format.isSome = true → format.isSome = true := by
    intro hNode
    obtain ⟨name, hName⟩ := Option.isSome_iff_exists.mp hNode
    rw [hName] at hFormat
    obtain ⟨found, _, hFound⟩ := passed hFormat
    cases hFound
    rfl
  cases hTarget : node.target with
  | none =>
      simp only [hTarget] at hOutput
      cases hOutput
      refine ⟨by simp, fun _ => hSome ?_⟩
      simpa [OutputNode.Readable, hTarget] using hReadable
  | some target =>
      cases target with
      | clipboard =>
          simp only [hTarget] at hOutput
          cases hOutput
          exact ⟨by simp, fun hInline => by cases hInline⟩
      | path text =>
          simp only [hTarget] at hOutput
          cases hOutput
          exact ⟨by simp, fun hInline => by cases hInline⟩

/-- Statements as readers give them: lists are never empty, output clauses say
something, and update and delete are never about a group. -/
def Statement.Readable : Statement → Prop
  | .select node => ∀ output ∈ node.output, output.Readable
  | .update node =>
      node.subject.keyword ≠ .within ∧ node.setters ≠ []
  | .delete node => node.subject.keyword ≠ .within
  | .insert node => node.setters ≠ []
  | .show _ => True

/-- No field at all is not accepted. -/
theorem toProjection_wellFormed {node : FieldsNode} {position : Position}
    {projection : Projection} (h : node.toProjection position = .ok projection) :
    projection.WellFormed := by
  unfold FieldsNode.toProjection at h
  split at h
  · cases h
    trivial
  · cases h
  · rename_i properties hNonempty
    cases h
    exact fun hEmpty => hNonempty (List.map_eq_nil_iff.mp hEmpty)

/-- A select that is accepted is well formed in each of its parts. -/
theorem toSelect_wellFormed {node : SelectNode} {q : Select}
    (hReadable : ∀ output ∈ node.output, output.Readable) (h : node.toSelect = .ok q) :
    q.WellFormed := by
  unfold SelectNode.toSelect at h
  dsimp only at h
  split at h
  · cases h
  rename_i hWhere
  obtain ⟨projection, hProjection, h⟩ := passed h
  obtain ⟨clauses, hClauses, h⟩ := passed h
  obtain ⟨limit, hLimit, h⟩ := passed h
  obtain ⟨page, hPage, h⟩ := passed h
  obtain ⟨aggregate, hAggregate, h⟩ := passed h
  obtain ⟨output, hOutput, h⟩ := passed h
  cases h
  refine
    { subject := toSubject_wellFormed node.subject
      projection := toProjection_wellFormed hProjection
      clauses := clausesOf_wellFormed hClauses
      noClauses := fun hDocument => ?_
      limit := forall_of_optional_ok hLimit fun _ _ _ => evaluateCount_lt
      page := forall_of_optional_ok hPage fun _ _ _ => evaluatePage_bounds
      output := forall_of_optional_ok hOutput fun a ha _ => toOutput_wellFormed (hReadable a ha) }
  have hNone : node.predicates = none := by
    simp only [not_and] at hWhere
    simpa using hWhere hDocument
  rw [hNone] at hClauses
  cases hClauses
  rfl

/-- What is left to check of an update or a delete once the condition was
required. -/
theorem wellNarrowed_of_requireWhere {statement : Keyword} {node : SubjectNode}
    {predicates : Option (List PredicateNode)} {position : Position} {clauses : List Clause}
    (hKeyword : node.keyword ≠ .within)
    (hRequired : requireWhere statement node.toSubject predicates position = .ok ())
    (hClauses : clausesOf predicates = .ok clauses) : WellNarrowed node.toSubject clauses := by
  refine ⟨toSubject_wellFormed node, toSubject_kind_ne hKeyword, clausesOf_wellFormed hClauses,
    fun hCollection => ne_nil_of_mapM_ok hClauses fun hEmpty => ?_⟩
  simp [requireWhere, hCollection, hEmpty] at hRequired

/-- An update that is accepted sets something, and its subject is no group. -/
theorem toUpdate_wellFormed {node : UpdateNode} {q : Update}
    (hReadable : node.subject.keyword ≠ .within ∧ node.setters ≠ [])
    (h : node.toUpdate = .ok q) : q.WellFormed := by
  obtain ⟨_, hRequired, h⟩ := passed h
  obtain ⟨setters, hSetters, h⟩ := passed h
  obtain ⟨clauses, hClauses, h⟩ := passed h
  cases h
  exact ⟨wellNarrowed_of_requireWhere hReadable.1 hRequired hClauses,
    forall_of_mapM_ok hSetters fun _ _ => toSetter_wellFormed,
    ne_nil_of_mapM_ok hSetters hReadable.2⟩

theorem toDelete_wellFormed {node : DeleteNode} {q : Delete}
    (hReadable : node.subject.keyword ≠ .within) (h : node.toDelete = .ok q) : q.WellFormed := by
  obtain ⟨_, hRequired, h⟩ := passed h
  obtain ⟨clauses, hClauses, h⟩ := passed h
  cases h
  exact wellNarrowed_of_requireWhere hReadable hRequired hClauses

/-- An insert that is accepted sets something. -/
theorem toInsert_wellFormed {node : InsertNode} {q : Insert} (hReadable : node.setters ≠ [])
    (h : node.toInsert = .ok q) : q.WellFormed := by
  obtain ⟨identifier, hIdentifier, h⟩ := passed h
  obtain ⟨setters, hSetters, h⟩ := passed h
  cases h
  exact ⟨Path.trimmed_trim _, forall_of_mapM_ok hSetters fun _ _ => toSetter_wellFormed,
    ne_nil_of_mapM_ok hSetters hReadable⟩

theorem toShow_wellFormed {node : ShowNode} {q : Show} (h : node.toShow = .ok q) :
    q.WellFormed := by
  unfold ShowNode.toShow at h
  split at h
  · cases h
  · cases h
    intro subject hSubject
    obtain ⟨found, _, rfl⟩ := Option.map_eq_some_iff.mp hSubject
    exact toSubject_wellFormed found

/-- What a readable statement means is well-formed. -/
theorem toQuery_wellFormed {statement : Statement} {q : Query} (hReadable : statement.Readable)
    (h : statement.toQuery = .ok q) : q.WellFormed := by
  cases statement with
  | select node =>
      obtain ⟨found, hFound, h⟩ := passed h
      cases h
      exact toSelect_wellFormed hReadable hFound
  | update node =>
      obtain ⟨found, hFound, h⟩ := passed h
      cases h
      exact toUpdate_wellFormed hReadable hFound
  | delete node =>
      obtain ⟨found, hFound, h⟩ := passed h
      cases h
      exact toDelete_wellFormed hReadable hFound
  | insert node =>
      obtain ⟨found, hFound, h⟩ := passed h
      cases h
      exact toInsert_wellFormed hReadable hFound
  | «show» node =>
      obtain ⟨found, hFound, h⟩ := passed h
      cases h
      exact toShow_wellFormed hFound

end Grammar

end DocQuery
