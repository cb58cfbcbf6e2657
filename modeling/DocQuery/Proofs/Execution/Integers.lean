import DocQuery.Proofs.Execution.Mutation
import DocQuery.Proofs.Number.Rounding
import DocQuery.Proofs.Selection.Buckets
import DocQuery.Proofs.Selection.Kept

/-! Integers are compared by the doubles nearest to them. Up to `2 ^ 53`
every integer is a double of its own, and integers of which one is smaller
are told apart wherever values are compared: by clauses of every statement
and by groupings. Two larger ones are one value if they are rounded to the
same double. -/
namespace DocQuery

/-- The integers of documents and statements: those of 64 bits, with a sign or
without. -/
def IsInteger64 (n : Int) : Prop :=
  -2 ^ 63 ≤ n ∧ n < 2 ^ 64

instance (n : Int) : Decidable (IsInteger64 n) :=
  inferInstanceAs (Decidable (_ ∧ _))

/-- Every integer of 64 bits is small enough for its double to stand for the
rounded integer. -/
theorem IsInteger64.natAbs_le {n : Int} (h : IsInteger64 n) : n.natAbs ≤ 2 ^ 64 := by
  obtain ⟨hLower, hUpper⟩ := h
  omega

section Values

variable {a b : Int} (ha : IsInteger64 a) (hb : IsInteger64 b)
include ha hb

theorem Value.equal_integer_iff :
    (Value.number (.integer a)).equal (.number (.integer b)) = true ↔
      Double.roundInt a = Double.roundInt b :=
  Double.equal_ofInt_iff ha.natAbs_le hb.natAbs_le

theorem Value.order_integer :
    (Value.number (.integer a)).order (.number (.integer b)) =
      compare (Double.roundInt a) (Double.roundInt b) :=
  Double.order_ofInt ha.natAbs_le hb.natAbs_le

end Values

/-- The value that a clause compares: local clauses find it among the flattened
fields, and all clauses are local if a single document is read; for the others
the store looks it up. -/
def Clause.reading (clause : Clause) (subject : Subject) (document : Document) : Option Value :=
  if clause.isLocal = true ∨ subject.kind = .document then
    document.fields.flatten.get? clause.property
  else document.fields.field? clause.property

/-- A document whose value differs from the one that a clause asks for is not
selected. -/
theorem Plan.not_mem_of_unequal {store : Store} {maximum : Nat} {documents : List Document}
    {plan : Plan} {subject : Subject} {clauses : List Clause} {order : List OrderKey}
    {limit page : Option Nat} (hMake : make subject clauses order limit page = .ok plan)
    (h : resultOf (plan.select maximum) store = .ok documents) {clause : Clause}
    (hClause : clause ∈ clauses) (hOperator : clause.operator = .equal) {document : Document}
    {actual : Value} (hReading : clause.reading subject document = some actual)
    (hUnequal : actual.equal clause.value.toValue = false) : document ∉ documents := by
  intro hDocument
  rw [Clause.reading] at hReading
  split at hReading
  · rename_i hLocal
    have hHolds := holds_of_select hMake h hDocument hClause hLocal
    simp only [Clause.holds, hReading, Clause.accepts, hOperator, hUnequal,
      Bool.false_eq_true] at hHolds
  · rename_i hRemote
    obtain ⟨hMarked, hKind⟩ := not_or.mp hRemote
    obtain ⟨filter, hFilter, hHolds⟩ :=
      filter_holds_of_select hMake h hDocument hClause (Bool.eq_false_iff.mpr hMarked) hKind
    simp only [filterOf, hOperator, Operator.remote?, Except.ok.injEq] at hFilter
    simp only [← hFilter, Filter.holds, hReading, Filter.passes, hUnequal,
      Bool.false_eq_true] at hHolds

/-- No statement with the subject and the clauses has anything to do with a
document. -/
structure Engine.Overlooks (engine : Engine) (world : World) (subject : Subject)
    (clauses : List Clause) (document : Document) : Prop where
  select : ∀ q : Select, q.subject = subject → q.clauses = clauses → ∀ documents,
    resultOf (q.selection engine.maximum) world.store = .ok documents → document ∉ documents
  update : ∀ q : Update, q.subject = subject → q.clauses = clauses →
    document ∈ world.store.documents.toList →
      document ∈ (finishOf (engine.update q) world).store.documents.toList
  delete : ∀ q : Delete, q.subject = subject → q.clauses = clauses →
    document ∈ world.store.documents.toList →
      document ∈ (finishOf (engine.delete q) world).store.documents.toList

namespace Engine

section Statements

variable (engine : Engine) {world : World} (hAddressed : world.store.WellAddressed)
  {subject : Subject} {clauses : List Clause} {document : Document}
include hAddressed

/-- A document that is not selected stays as it is. -/
theorem mem_writeSelected {write : String → StoreM Unit} {change : Fields → Option Fields}
    (hWrite : Store.WritesAs write change) (hStored : document ∈ world.store.documents.toList)
    (h : ∀ documents, resultOf ((Select.every subject clauses).selection engine.maximum)
      world.store = .ok documents → document ∉ documents) :
    document ∈ (finishOf (engine.writeSelected (Select.every subject clauses).plan write)
      world).store.documents.toList := by
  have hWrites := engine.writesTo_writeSelected hWrite hAddressed subject clauses
  cases hSelection : resultOf ((Select.every subject clauses).selection engine.maximum)
      world.store with
  | error fault =>
      rw [(hWrites.fails fault hSelection).2]
      exact hStored
  | ok documents =>
      rw [(hWrites.writes documents hSelection).documents]
      refine mem_rewritten hStored (Store.not_mem_writtenPaths fun hPath => ?_)
      obtain ⟨other, hOther, hSame⟩ := List.mem_map.mp hPath
      have hThere := (hWrites.stored documents hSelection).1 other hOther
      obtain rfl := List.inj_on_of_nodup_map world.store.documents.nodup_paths hThere hStored hSame
      exact h documents hSelection hOther

/-- A statement with an equality does not touch a document whose field is
unequal. -/
theorem overlooks_of_unequal {clause : Clause} (hClause : clause ∈ clauses)
    (hOperator : clause.operator = .equal) {actual : Value}
    (hReading : clause.reading subject document = some actual)
    (hUnequal : actual.equal clause.value.toValue = false) :
    engine.Overlooks world subject clauses document := by
  have hSelect (q : Select) (hSubject : q.subject = subject) (hClauses : q.clauses = clauses)
      (documents : List Document)
      (h : resultOf (q.selection engine.maximum) world.store = .ok documents) :
      document ∉ documents := by
    subst hSubject hClauses
    obtain ⟨plan, hMake, hPlan, _⟩ := planned_bind_eq_ok h
    exact Plan.not_mem_of_unequal hMake hPlan hClause hOperator hReading hUnequal
  have hEvery := hSelect (Select.every subject clauses) rfl rfl
  refine ⟨hSelect, ?_, ?_⟩
  · rintro q rfl rfl hStored
    exact engine.mem_writeSelected hAddressed (Store.writesAs_update _) hStored hEvery
  · rintro q rfl rfl hStored
    exact engine.mem_writeSelected hAddressed Store.writesAs_delete hStored hEvery

end Statements

end Engine

/-- How integers are compared: as what they are rounded to. -/
structure Engine.ComparesRounded (engine : Engine) (world : World) : Prop where
  equal : ∀ a b, IsInteger64 a → IsInteger64 b →
    ((Value.number (.integer a)).equal (.number (.integer b)) = true ↔
      Double.roundInt a = Double.roundInt b)
  order : ∀ a b, IsInteger64 a → IsInteger64 b →
    (Value.number (.integer a)).order (.number (.integer b)) =
      compare (Double.roundInt a) (Double.roundInt b)
  /-- No integer is ordered before a smaller one. -/
  monotone : ∀ a b, a ≤ b → Double.roundInt a ≤ Double.roundInt b
  /-- An integer below `2 ^ 53` is told apart from every other and ordered among
  them. -/
  exact : ∀ a b, a.natAbs < 2 ^ 53 ∨ b.natAbs < 2 ^ 53 →
    (Double.roundInt a = Double.roundInt b ↔ a = b) ∧
      (Double.roundInt a < Double.roundInt b ↔ a < b)
  /-- A clause that asks for an integer passes over the documents with a
  differently rounded one. -/
  clauses : ∀ subject clauses property n isLocal, IsInteger64 n →
    ⟨property, .equal, .integer n, isLocal⟩ ∈ clauses → ∀ document m, IsInteger64 m →
      Clause.reading ⟨property, .equal, .integer n, isLocal⟩ subject document =
        some (.number (.integer m)) →
      Double.roundInt m ≠ Double.roundInt n → engine.Overlooks world subject clauses document
  /-- Documents with integers share a bucket if their integers are rounded
  alike. -/
  groups : ∀ property documents,
    (∀ document ∈ documents, (Value.object document.fields).KeysDistinct) →
    (∀ record, (groupRecords property documents (documents.map record)).map Prod.snd =
      (groupsOf property documents).map (List.map record)) ∧
    ∀ group ∈ groupsOf property documents, ∀ a ∈ group, ∀ b ∈ documents, ∀ m n,
      IsInteger64 m → IsInteger64 n → groupKey property a = some (.number (.integer m)) →
      groupKey property b = some (.number (.integer n)) →
      (b ∈ group ↔ Double.roundInt m = Double.roundInt n)

/-- Integers are compared as the doubles nearest to them by equality and order,
by the clauses of selects, updates and deletes, and by groupings. -/
theorem Engine.integers_compared_rounded (engine : Engine) (world : World)
    (h : world.store.Reachable) : engine.ComparesRounded world := by
  refine ⟨fun a b => Value.equal_integer_iff, fun a b => Value.order_integer,
    fun a b => Double.roundInt_mono, ?_, ?_, ?_⟩
  · intro a b hSmall
    exact ⟨Double.roundInt_eq_iff hSmall, Double.roundInt_lt_iff hSmall⟩
  · intro subject clauses property n isLocal hn hClause document m hm hReading hDiffer
    refine engine.overlooks_of_unequal h.wellAddressed hClause rfl hReading ?_
    exact Bool.eq_false_iff.mpr (mt (Value.equal_integer_iff hm hn).mp hDiffer)
  · intro property documents hDistinct
    refine ⟨rows_groupRecords property hDistinct, ?_⟩
    intro group hGroup a ha b hb m n hm hn hKeyA hKeyB
    rw [mem_group_iff property hDistinct hGroup ha hb, sameGroup, hKeyA, hKeyB]
    exact Value.equal_integer_iff hm hn

/-- From `2 ^ 53` on there are integers that no double tells apart. -/
theorem integers_not_compared_exactly :
    ¬ ∀ a b : Int, IsInteger64 a → IsInteger64 b →
      ((Value.number (.integer a)).equal (.number (.integer b)) = true ↔ a = b) ∧
        (Value.number (.integer a)).order (.number (.integer b)) = compare a b := by
  intro hExact
  have hEqual := (hExact (2 ^ 53 + 1) (2 ^ 53) (by decide) (by decide)).1.mp (by decide +kernel)
  exact absurd hEqual (by decide)

theorem Engine.integers_compared_rounded_tied :
    Store.tied.Reachable ∧
      (⟨"users/b", [("age", .number (.integer 7))]⟩ : Document) ∈
        (finishOf (Engine.delete { maximum := 5 }
          ⟨⟨"users", .collection⟩, [⟨"age", .equal, .integer 8, false⟩]⟩)
          ⟨Store.tied, .none⟩).store.documents.toList := by
  have hCompares := Engine.integers_compared_rounded { maximum := 5 } ⟨Store.tied, .none⟩
    Store.reachable_tied
  have hOverlooks := hCompares.clauses ⟨"users", .collection⟩ [⟨"age", .equal, .integer 8, false⟩]
    "age" 8 false (by decide) List.mem_cons_self ⟨"users/b", [("age", .number (.integer 7))]⟩ 7
    (by decide) rfl (by decide +kernel)
  exact ⟨Store.reachable_tied, hOverlooks.delete _ rfl rfl (by rw [Store.toList_tied]; simp)⟩

end DocQuery
