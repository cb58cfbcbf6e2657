import DocQuery.Proofs.Selection.Buckets

/-! Rows without repetitions beside the buckets of a grouping by the same
property. Both count a missing property as null. Buckets go by the values
themselves, where a whole number may equal a double; a row is an object, and
values inside objects are compared by their structure. So a bucket has one row
or several among those without repetitions, and all have one if and only if
equal values of the property have the same structure. -/
namespace DocQuery

/-- The value of a property, null where it is missing. -/
def Document.valueAt (property : String) (document : Document) : Value :=
  (document.toValue.field? property).getD .null

/-- Whether two documents have equal values of a property. -/
def equalValues (property : String) (a b : Document) : Bool :=
  (a.valueAt property).equal (b.valueAt property)

/-- Whether two documents have values of the same structure in a property. -/
def sameValues (property : String) (a b : Document) : Bool :=
  (a.valueAt property).same (b.valueAt property)

/-- Keys that are not `null` are compared as the values that stand for them. -/
theorem sameKey_eq_equal {a b : Option Value} (ha : a ≠ some .null) (hb : b ≠ some .null) :
    sameKey a b = (a.getD .null).equal (b.getD .null) := by
  cases a with
  | none =>
      cases b with
      | none => rfl
      | some value =>
          cases value with
          | null => exact absurd rfl hb
          | _ => rfl
  | some value =>
      cases b with
      | some other => rfl
      | none =>
          cases value with
          | null => exact absurd rfl ha
          | _ => rfl

theorem groupKey_cases (property : String) (document : Document) :
    groupKey property document ≠ some .null ∧
      (groupKey property document).getD .null = document.valueAt property := by
  rw [groupKey, Document.valueAt]
  split
  · rename_i hNull
    exact ⟨Option.some_ne_none _ ∘ Eq.symm, by rw [hNull]; rfl⟩
  · rename_i hFound
    exact ⟨hFound, rfl⟩

theorem sameGroup_eq_equalValues (property : String) :
    sameGroup property = equalValues property := by
  funext a b
  obtain ⟨hNotNullA, hValueA⟩ := groupKey_cases property a
  obtain ⟨hNotNullB, hValueB⟩ := groupKey_cases property b
  rw [sameGroup, sameKey_eq_equal hNotNullA hNotNullB, hValueA, hValueB, equalValues]

/-- Records of one property are equal as their values are. -/
theorem equal_record (property : String) (a b : Document) :
    ((Projection.only [property]).record a).equal ((Projection.only [property]).record b) =
      sameValues property a b := by
  have hRow (document : Document) : (Projection.only [property]).record document =
      .object [(property, document.valueAt property)] := rfl
  simp [hRow, Value.equal, Value.same, Value.sameFields, Fields.get?_cons, sameValues]

/-- Without repetitions are the rows of the first documents by the structure of
the property. -/
theorem distinctValues_records (property : String) (documents : List Document) :
    distinctValues (documents.map (Projection.only [property]).record) =
      (firstsOf (sameValues property) documents).map (Projection.only [property]).record := by
  rw [distinctValues_eq, firstsOf_map]
  simp only [equal_record]

theorem Document.keysDistinct_valueAt (property : String) {document : Document}
    (h : (Value.object document.fields).KeysDistinct) :
    (document.valueAt property).KeysDistinct := by
  rw [valueAt]
  cases hFound : document.toValue.field? property with
  | none => trivial
  | some value => exact Value.keysDistinct_of_follow (keysDistinct_toValue h) hFound

section Documents

variable (property : String) {documents : List Document}
  (h : ∀ document ∈ documents, (Value.object document.fields).KeysDistinct)
include h

/-- Having the same value is an equivalence on documents with distinct names. -/
theorem equivalenceOn_sameValues : EquivalenceOn (sameValues property) documents where
  refl a ha := Value.same_refl _ (Document.keysDistinct_valueAt property (h a ha))
  symm a ha b hb := Value.same_symm (Document.keysDistinct_valueAt property (h a ha))
    (Document.keysDistinct_valueAt property (h b hb))
  trans _ _ _ _ _ _ := Value.same_trans

theorem equivalenceOn_equalValues : EquivalenceOn (equalValues property) documents :=
  sameGroup_eq_equalValues property ▸ equivalenceOn_sameGroup property h

/-- The buckets begin with the records of the first documents by the value of
the property. -/
theorem heads_groupRecords (record : Document → Value) :
    (groupRecords property documents (documents.map record)).map (fun bucket => bucket.2.head?) =
      ((firstsOf (equalValues property) documents).map record).map some := by
  have hHeads := congrArg (List.map List.head?) (rows_groupRecords property h record)
  rw [List.map_map, groupsOf, sameGroup_eq_equalValues, List.map_map, List.map_map] at hHeads
  refine hHeads.trans ((List.map_congr_left fun first hFirst => ?_).trans List.map_map.symm)
  rw [Function.comp_apply, Function.comp_apply, List.head?_map,
    (equivalenceOn_equalValues property h).head?_filter hFirst]
  rfl

/-- The first rows of the buckets are among the rows without repetitions, in
their order. They are all of them, and as many, if and only if equal values of
the property have the same structure. -/
theorem distinct_rows_lead_buckets :
    ∃ (rows : List Value) (buckets : List (String × List Value)) (leaders : List Value),
      arrange (.only [property]) none (some .distinct) documents = .records rows ∧
      arrange (.only [property]) (some property) none documents = .grouped buckets ∧
      buckets.map (fun bucket => bucket.2.head?) = leaders.map some ∧
      leaders.Sublist rows ∧
      (rows = leaders ↔ ∀ a ∈ documents, ∀ b ∈ documents,
        equalValues property a b = true → sameValues property a b = true) ∧
      (rows.length = buckets.length ↔ ∀ a ∈ documents, ∀ b ∈ documents,
        equalValues property a b = true → sameValues property a b = true) := by
  have hEqual := equivalenceOn_equalValues property h
  have hSame := equivalenceOn_sameValues property h
  have hFiner : ∀ a ∈ documents, ∀ b ∈ documents,
      sameValues property a b = true → equalValues property a b = true :=
    fun _ _ _ _ => Value.equal_of_same
  have hRows := distinctValues_records property documents
  have hHeads := heads_groupRecords property h (Projection.only [property]).record
  have hLength := congrArg List.length hHeads
  simp only [List.length_map] at hLength
  have hSublist := (hEqual.firstsOf_sublist hSame hFiner).map (Projection.only [property]).record
  have hAgree := hEqual.length_firstsOf_eq_iff hSame hFiner
  refine ⟨_, _, _, rfl, rfl, hHeads, ?_, ?_, ?_⟩
  · rw [hRows]
    exact hSublist
  · rw [hRows, ← hAgree]
    constructor
    · intro hAll
      simpa only [List.length_map] using (congrArg List.length hAll).symm
    · intro hCount
      exact (hSublist.eq_of_length (by simpa only [List.length_map])).symm
  · rw [hRows, List.length_map, hLength, ← hAgree]
    exact eq_comm

end Documents

/-- A whole number, and the double that equals it. -/
def oneTwice : List Document :=
  [⟨"c/1", [("n", .number (.integer 1))]⟩, ⟨"c/2", [("n", .number (.real (Double.ofInt 1)))]⟩]

theorem keysDistinct_oneTwice :
    ∀ document ∈ oneTwice, (Value.object document.fields).KeysDistinct := by
  simp [oneTwice, Value.KeysDistinct, Value.FieldsDistinct, Fields.keys]

/-- One bucket has two rows among those without repetitions. -/
theorem rows_outnumber_buckets :
    ¬ ∀ (property : String) (documents : List Document),
      (∀ document ∈ documents, (Value.object document.fields).KeysDistinct) →
      ∃ (rows : List Value) (buckets : List (String × List Value)),
        arrange (.only [property]) none (some .distinct) documents = .records rows ∧
        arrange (.only [property]) (some property) none documents = .grouped buckets ∧
        buckets.map (fun bucket => bucket.2.head?) = rows.map some := by
  intro hLed
  obtain ⟨rows, buckets, hRows, hBuckets, hSame⟩ := hLed "n" oneTwice keysDistinct_oneTwice
  obtain rfl := ResultSet.records.inj hRows
  obtain rfl := ResultSet.grouped.inj hBuckets
  have hLengths := congrArg List.length hSame
  rw [List.length_map, List.length_map] at hLengths
  revert hLengths
  decide +kernel

/-- The number and the double share a bucket, but not a row. -/
theorem distinct_rows_lead_buckets_oneTwice :
    (∀ document ∈ oneTwice, (Value.object document.fields).KeysDistinct) ∧
      ∃ (rows : List Value) (buckets : List (String × List Value)) (leaders : List Value),
        arrange (.only ["n"]) none (some .distinct) oneTwice = .records rows ∧
        arrange (.only ["n"]) (some "n") none oneTwice = .grouped buckets ∧
        buckets.map (fun bucket => bucket.2.head?) = leaders.map some ∧
        leaders.Sublist rows ∧ rows.length ≠ buckets.length := by
  obtain ⟨rows, buckets, leaders, hRows, hBuckets, hLeaders, hSublist, _, hLengths⟩ :=
    distinct_rows_lead_buckets "n" keysDistinct_oneTwice
  refine ⟨keysDistinct_oneTwice, rows, buckets, leaders, hRows, hBuckets, hLeaders, hSublist, ?_⟩
  intro hSame
  have hAgree := hLengths.mp hSame _ (.head _) _ (.tail _ (.head _)) (by decide +kernel)
  cases hAgree

end DocQuery
