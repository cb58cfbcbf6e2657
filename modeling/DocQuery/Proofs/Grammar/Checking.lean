import DocQuery.Proofs.Grammar.Derivation
import DocQuery.Proofs.Grammar.Traces

/-! How statements are checked for their meaning. `Checks` says all that a check
does with the places in a part of a statement: they make no difference to
whether the part is accepted and what it means, and where it is refused, the
error is at one of its traces. -/
namespace DocQuery.Grammar

section Results

variable {ε α : Type}

/-- Two checks that end alike, with the same result or both with an error. -/
def EndAlike (first second : Except ε α) : Prop :=
  first.toOption = second.toOption

theorem endAlike_error (first second : ε) :
    EndAlike (.error first : Except ε α) (.error second) :=
  rfl

/-- Checks that end alike accept the same parts with the same results. -/
theorem EndAlike.eq_ok_iff {first second : Except ε α} (h : EndAlike first second) {a : α} :
    first = .ok a ↔ second = .ok a := by
  have hSome (check : Except ε α) : check = .ok a ↔ check.toOption = some a := by
    cases check <;> simp [Except.toOption]
  rw [hSome, hSome, h]

end Results

/-- An error is explained by a trace if it is at its place, and if digits that
are said to be no number stand there and are none. -/
structure Trace.Explains (trace : Trace) (error : SyntaxError) : Prop where
  place : trace.position = error.position
  digits : ∀ digits, error.cause = .malformedNumber digits →
    trace.digits = some digits ∧ literalOfDigits digits = .error (.malformedNumber digits)

/-- A part without its places and the part itself are checked: both have the
same result, or both are refused and one of the traces explains the error of the
part itself. -/
inductive Checks {α : Type} (traces : List Trace) :
    Except SyntaxError α → Except SyntaxError α → Prop where
  | ok (a : α) : Checks traces (.ok a) (.ok a)
  | error {plain error : SyntaxError} (h : ∃ trace ∈ traces, trace.Explains error) :
      Checks traces (.error plain) (.error error)

section Rules

variable {α β : Type} {traces : List Trace} {plain check : Except SyntaxError α}

/-- Places make no difference to whether a part is accepted. -/
theorem Checks.endAlike (h : Checks traces plain check) : EndAlike plain check := by
  cases h with
  | ok a => rfl
  | error _ => rfl

/-- Every error of a check has a trace behind it. -/
theorem Checks.explains (h : Checks traces plain check) {error : SyntaxError}
    (hError : check = .error error) : ∃ trace ∈ traces, trace.Explains error := by
  cases h with
  | ok a => cases hError
  | error hTrace => exact Except.error.inj hError ▸ hTrace

/-- An error that is about no digits has only to be at the right place. -/
theorem checks_error {error other : SyntaxError}
    (h : ∃ trace ∈ traces, trace.position = error.position)
    (hCause : ∀ digits, error.cause ≠ .malformedNumber digits) :
    Checks traces (.error other : Except SyntaxError α) (.error error) := by
  obtain ⟨trace, hTrace, hPlace⟩ := h
  exact .error ⟨trace, hTrace, hPlace, fun digits hMalformed => absurd hMalformed (hCause digits)⟩

/-- A check of a part of a statement may be explained by any trace of the
statement. -/
theorem Checks.mono {more : List Trace} (h : Checks traces plain check) (hMore : traces ⊆ more) :
    Checks more plain check := by
  cases h with
  | ok a => exact .ok a
  | error hTrace =>
      obtain ⟨trace, hMember, hExplains⟩ := hTrace
      exact .error ⟨trace, hMore hMember, hExplains⟩

/-- A case distinction that reads no place takes the same branch on both
sides. -/
theorem Checks.ite {condition : Prop} [Decidable condition] {other another : Except SyntaxError α}
    (h : Checks traces plain check) (hElse : Checks traces other another) :
    Checks traces (if condition then plain else other) (if condition then check else another) := by
  split
  · exact h
  · exact hElse

/-- Checks one after the other: the second need only be explained where the
first accepts. -/
theorem Checks.bind {next after : α → Except SyntaxError β} (h : Checks traces plain check)
    (hNext : ∀ a, Checks traces (next a) (after a)) :
    Checks traces (plain >>= next) (check >>= after) := by
  cases h with
  | ok a => exact hNext a
  | error hTrace => exact .error hTrace

/-- A result that is only put into its place. -/
theorem Checks.bind_pure (h : Checks traces plain check) (f : α → β) :
    Checks traces (plain >>= fun a => pure (f a)) (check >>= fun a => pure (f a)) :=
  h.bind fun a => .ok (f a)

variable {test : α → Except SyntaxError β} {strip : α → α} {tracesOf : α → List Trace}

/-- One part after the other is checked, up to the first that is refused. -/
theorem checks_mapM (h : ∀ item, Checks (tracesOf item) (test (strip item)) (test item))
    (items : List α) :
    Checks (items.flatMap tracesOf) ((items.map strip).mapM test) (items.mapM test) := by
  induction items with
  | nil => exact .ok []
  | cons item rest ih =>
      rw [List.map_cons, List.mapM_cons, List.mapM_cons, List.flatMap_cons]
      refine ((h item).mono (List.subset_append_left _ _)).bind fun first => ?_
      exact (ih.mono (List.subset_append_right _ _)).bind_pure (first :: ·)

/-- A part that may be missing is checked if it is there. -/
theorem checks_optional (h : ∀ item, Checks (tracesOf item) (test (strip item)) (test item))
    (item : Option α) :
    Checks (item.toList.flatMap tracesOf) ((item.map strip).mapM test) (item.mapM test) := by
  cases item with
  | none => exact .ok none
  | some a => exact ((h a).mono (List.subset_append_left _ _)).bind_pure some

end Rules

section Values

/-- Digits that are no number are refused as they are. -/
theorem malformed_of_literalOfDigits {digits other : String}
    (h : literalOfDigits digits = .error (.malformedNumber other)) : other = digits := by
  unfold literalOfDigits at h
  split at h
  rename_i negative unsigned _
  split at h
  · split at h
    · exact (SyntaxError.Cause.malformedNumber.inj (Except.error.inj h)).symm
    · split at h
      · cases h
      · cases h
  · dsimp only at h
    generalize (if negative = true then -(Decimal.value unsigned : Int)
      else Decimal.value unsigned) = n at h
    cases hRange : Literal.inRange n with
    | true =>
        rw [hRange] at h
        cases h
    | false =>
        rw [hRange] at h
        cases h

mutual

/-- A name is no value, and digits may be no number; both are refused where they
stand. -/
theorem checks_evaluate (node : ValueNode) :
    Checks node.traces node.unplaced.evaluate node.evaluate := by
  cases node with
  | string text position | bool b position | null position => exact .ok _
  | number digits position =>
      simp only [ValueNode.unplaced, ValueNode.evaluate]
      cases hLiteral : literalOfDigits digits with
      | ok literal => exact .ok literal
      | error cause =>
          refine .error ⟨⟨position, some digits⟩, List.mem_cons_self, rfl, fun other hCause => ?_⟩
          obtain rfl : cause = .malformedNumber other := hCause
          obtain rfl := malformed_of_literalOfDigits hLiteral
          exact ⟨rfl, hLiteral⟩
  | array items position =>
      simp only [ValueNode.unplaced, ValueNode.evaluate]
      exact ((checks_evaluateAll items).mono (List.subset_cons_self _ _)).bind_pure Literal.array
  | name text position => exact checks_error ⟨_, List.mem_cons_self, rfl⟩ (by simp)

theorem checks_evaluateAll (items : List ValueNode) :
    Checks (ValueNode.tracesOfItems items)
      (ValueNode.evaluateAll (ValueNode.unplacedItems items)) (ValueNode.evaluateAll items) := by
  cases items with
  | nil => exact .ok []
  | cons item rest =>
      simp only [ValueNode.tracesOfItems, ValueNode.unplacedItems, ValueNode.evaluateAll]
      refine ((checks_evaluate item).mono (List.subset_append_left _ _)).bind fun first => ?_
      exact ((checks_evaluateAll rest).mono (List.subset_append_right _ _)).bind_pure (first :: ·)

end

/-- A bound has to be a number of documents, and is refused where its value
stands. -/
theorem checks_evaluateCount (clause : Keyword) (node : ValueNode) :
    Checks node.traces (node.unplaced.evaluateCount clause) (node.evaluateCount clause) := by
  refine (checks_evaluate node).bind fun literal => ?_
  split
  · exact .ok _
  · exact checks_error node.exists_trace (by simp)

/-- A page has to hold a document, and its size is refused where its value
stands. -/
theorem checks_evaluatePage (node : ValueNode) :
    Checks node.traces node.unplaced.evaluatePage node.evaluatePage := by
  refine (checks_evaluateCount .page node).bind fun size => ?_
  exact .ite (checks_error node.exists_trace (by simp)) (.ok _)

theorem checks_identifierOf (node : ValueNode) :
    Checks node.traces (identifierOf node.unplaced) (identifierOf node) := by
  refine (checks_evaluate node).bind fun literal => ?_
  split
  · exact .ok _
  · exact .ok _
  · exact checks_error node.exists_trace (by simp)

end Values

section Clauses

theorem checks_toClause (node : PredicateNode) :
    Checks node.traces node.unplaced.toClause node.toClause :=
  ((checks_evaluate node.value).mono (List.subset_append_right _ _)).bind_pure _

/-- The conditions of a statement are checked from the first to the last. -/
theorem checks_clausesOf (predicates : Option (List PredicateNode)) :
    Checks (tracesOfWhere predicates)
      (clausesOf (predicates.map (List.map PredicateNode.unplaced))) (clausesOf predicates) := by
  cases predicates with
  | none => exact .ok []
  | some nodes =>
      exact (checks_mapM checks_toClause nodes).mono (List.subset_append_left _ _)

theorem checks_toSetter (node : SetterNode) :
    Checks node.traces node.unplaced.toSetter node.toSetter :=
  ((checks_evaluate node.value).mono (List.subset_append_right _ _)).bind_pure _

theorem checks_aggregateOf (name : Name) :
    Checks name.traces (aggregateOf name.unplaced) (aggregateOf name) := by
  simp only [aggregateOf, Name.unplaced]
  split
  · exact .ok _
  · exact .ok _
  · exact checks_error ⟨_, List.mem_cons_self, rfl⟩ (by simp)

theorem checks_formatOf (name : Name) :
    Checks name.traces (formatOf name.unplaced) (formatOf name) := by
  simp only [formatOf, Name.unplaced]
  split
  · exact .ok _
  · exact .ok _
  · exact checks_error ⟨_, List.mem_cons_self, rfl⟩ (by simp)

theorem checks_toOutput (node : OutputNode) :
    Checks node.traces node.unplaced.toOutput node.toOutput :=
  ((checks_optional checks_formatOf node.format).mono (List.subset_cons_self _ _)).bind
    fun _ => .ok _

/-- That a select has no fields is said at its own place. -/
theorem checks_toProjection (node : FieldsNode) (position other : Position) :
    Checks [⟨position, none⟩] (node.unplaced.toProjection other) (node.toProjection position) := by
  cases node with
  | star => exact .ok _
  | list properties =>
      cases properties with
      | nil => exact checks_error ⟨_, List.mem_cons_self, rfl⟩ (by simp)
      | cons first more =>
          have hTexts : ((first :: more).map Name.unplaced).map Name.text =
              (first :: more).map Name.text := by
            rw [List.map_map]
            rfl
          simp only [FieldsNode.unplaced, FieldsNode.toProjection]
          exact congrArg Projection.only hTexts ▸ .ok _

theorem toOrderKey_unplaced (sorters : Option (List SorterNode)) :
    ((sorters.map (List.map SorterNode.unplaced)).getD []).map SorterNode.toOrderKey =
      (sorters.getD []).map SorterNode.toOrderKey := by
  cases sorters with
  | none => rfl
  | some nodes =>
      rw [Option.map_some, Option.getD_some, Option.getD_some, List.map_map]
      rfl

/-- A missing `where` is noticed where the statement begins. -/
theorem checks_requireWhere (statement : Keyword) (subject : Subject)
    (predicates : Option (List PredicateNode)) (position other : Position) :
    Checks [⟨position, none⟩]
      (requireWhere statement subject (predicates.map (List.map PredicateNode.unplaced)) other)
      (requireWhere statement subject predicates position) := by
  have hGiven (given : List PredicateNode) : Checks [⟨position, none⟩]
      (requireWhere statement subject (some (given.map PredicateNode.unplaced)) other)
      (requireWhere statement subject (some given) position) := by
    cases given with
    | nil => exact .ite (checks_error ⟨_, List.mem_cons_self, rfl⟩ (by simp)) (.ok _)
    | cons first more => exact .ite (checks_error ⟨_, List.mem_cons_self, rfl⟩ (by simp)) (.ok _)
  cases predicates with
  | none => exact hGiven []
  | some given => exact hGiven given

end Clauses

section Statements

/-- A select is checked for its fields, conditions, bounds and output, each with
traces of its own. -/
theorem checks_toSelect (node : SelectNode) :
    Checks node.traces node.unplaced.toSelect node.toSelect := by
  have hSubject : node.subject.unplaced.toSubject = node.subject.toSubject := rfl
  have hGroup : (node.group.map Name.unplaced).map Name.text = node.group.map Name.text :=
    Option.map_map _ _ _
  have hStart : [⟨node.position, none⟩] ⊆ node.traces :=
    List.cons_subset.mpr ⟨List.mem_cons_self, List.nil_subset _⟩
  unfold SelectNode.toSelect
  simp only [SelectNode.unplaced, Option.isSome_map, toOrderKey_unplaced, hSubject, hGroup]
  refine .ite (checks_error ⟨_, List.mem_cons_self, rfl⟩ (by simp)) ?_
  refine ((checks_toProjection node.fields _ _).mono hStart).bind fun projection => ?_
  refine ((checks_clausesOf node.predicates).mono
    fun _ h => by simp [SelectNode.traces, h]).bind fun clauses => ?_
  refine ((checks_optional (checks_evaluateCount .limit) node.limit).mono
    fun _ h => by simp [SelectNode.traces, h]).bind fun limit => ?_
  refine ((checks_optional checks_evaluatePage node.page).mono
    fun _ h => by simp [SelectNode.traces, h]).bind fun page => ?_
  refine ((checks_optional checks_aggregateOf node.function).mono
    fun _ h => by simp [SelectNode.traces, h]).bind fun aggregate => ?_
  exact ((checks_optional checks_toOutput node.output).mono
    fun _ h => by simp [SelectNode.traces, h]).bind_pure _

/-- An update is checked for its condition and for the values that it sets. -/
theorem checks_toUpdate (node : UpdateNode) :
    Checks node.traces node.unplaced.toUpdate node.toUpdate := by
  have hStart : [⟨node.position, none⟩] ⊆ node.traces :=
    List.cons_subset.mpr ⟨List.mem_cons_self, List.nil_subset _⟩
  refine ((checks_requireWhere _ _ _ _ _).mono hStart).bind fun _ => ?_
  refine ((checks_mapM checks_toSetter node.setters).mono
    fun _ h => by simp [UpdateNode.traces, h]).bind fun setters => ?_
  exact ((checks_clausesOf node.predicates).mono
    fun _ h => by simp [UpdateNode.traces, h]).bind_pure _

/-- A delete is checked for its condition only. -/
theorem checks_toDelete (node : DeleteNode) :
    Checks node.traces node.unplaced.toDelete node.toDelete := by
  have hStart : [⟨node.position, none⟩] ⊆ node.traces :=
    List.cons_subset.mpr ⟨List.mem_cons_self, List.nil_subset _⟩
  refine ((checks_requireWhere _ _ _ _ _).mono hStart).bind fun _ => ?_
  exact ((checks_clausesOf node.predicates).mono
    fun _ h => by simp [DeleteNode.traces, h]).bind_pure _

/-- An insert is checked for the type of its identifier and for its values. -/
theorem checks_toInsert (node : InsertNode) :
    Checks node.traces node.unplaced.toInsert node.toInsert := by
  refine ((checks_optional checks_identifierOf node.identifier).mono
    fun _ h => by simp [InsertNode.traces, h]).bind fun identifier => ?_
  exact ((checks_mapM checks_toSetter node.setters).mono
    fun _ h => by simp [InsertNode.traces, h]).bind_pure _

/-- A show is refused at its own place if it has conditions. -/
theorem checks_toShow (node : ShowNode) :
    Checks node.traces node.unplaced.toShow node.toShow := by
  have hSubject : (node.subject.map SubjectNode.unplaced).map SubjectNode.toSubject =
      node.subject.map SubjectNode.toSubject :=
    Option.map_map _ _ _
  simp only [ShowNode.toShow, ShowNode.unplaced, Option.isSome_map, hSubject]
  exact .ite (checks_error ⟨_, List.mem_cons_self, rfl⟩ (by simp)) (.ok _)

/-- A statement means the same without the places in it, and without a meaning
it is refused at one of its traces. -/
theorem checks_toQuery (statement : Statement) :
    Checks statement.traces statement.unplaced.toQuery statement.toQuery := by
  cases statement with
  | select node => exact (checks_toSelect node).bind_pure Query.select
  | update node => exact (checks_toUpdate node).bind_pure Query.update
  | delete node => exact (checks_toDelete node).bind_pure Query.delete
  | insert node => exact (checks_toInsert node).bind_pure Query.insert
  | «show» node => exact (checks_toShow node).bind_pure Query.show

end Statements

end DocQuery.Grammar
