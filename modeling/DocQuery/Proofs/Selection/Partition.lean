import DocQuery.Proofs.Document.Setters
import DocQuery.Proofs.Selection.Distinct

/-! A grouping shares the selected documents out among its buckets. A bucket is
described by the places of its documents in the list, since several documents
may give one row. What belongs into one bucket is a class of an equivalence; a
count gives the number of classes, and without repetitions a bucket has the row
of each place that comes first among the places of equal rows. -/
namespace DocQuery

namespace Value

theorem null_equal_iff {value : Value} : Value.null.equal value = true ↔ value = .null := by
  cases value <;> simp [equal]

theorem equal_null_iff {value : Value} : value.equal .null = true ↔ value = .null := by
  cases value <;> simp [equal]

end Value

/-- Documents belong together if neither has a value of the property other than
null, or both have one and the two are equal. -/
def BelongTogether (property : String) (a b : Document) : Prop :=
  (a.valueAt property = .null ∧ b.valueAt property = .null) ∨
    ∃ first second, a.toValue.field? property = some first ∧
      b.toValue.field? property = some second ∧ first.equal second = true

/-- Documents are grouped together exactly if they belong together. -/
theorem equalValues_iff {property : String} {a b : Document} :
    equalValues property a b = true ↔ BelongTogether property a b := by
  rw [equalValues]
  constructor
  · intro hEqual
    cases hFirst : a.toValue.field? property with
    | none =>
        have hNull : a.valueAt property = .null := by rw [Document.valueAt, hFirst]; rfl
        exact .inl ⟨hNull, Value.null_equal_iff.mp (hNull ▸ hEqual)⟩
    | some first =>
        cases hSecond : b.toValue.field? property with
        | none =>
            have hNull : b.valueAt property = .null := by rw [Document.valueAt, hSecond]; rfl
            exact .inl ⟨Value.equal_null_iff.mp (hNull ▸ hEqual), hNull⟩
        | some second =>
            rw [Document.valueAt, Document.valueAt, hFirst, hSecond] at hEqual
            exact .inr ⟨first, second, hFirst, hSecond, hEqual⟩
  · rintro (⟨hFirst, hSecond⟩ | ⟨first, second, hFirst, hSecond, hEqual⟩)
    · rw [hFirst, hSecond]
      rfl
    · rw [Document.valueAt, Document.valueAt, hFirst, hSecond]
      exact hEqual

/-- The row that the document at a place gives. -/
def Projection.rowAt (projection : Projection) (documents : List Document)
    (place : Fin documents.length) : Value :=
  projection.record documents[place]

/-- The places of a group whose row equals that of no smaller place. -/
def firstPlaces {n : Nat} (row : Fin n → Value) (group : List (Fin n)) : List (Fin n) :=
  group.filter fun i => !group.any fun j => decide (j < i) && (row j).equal (row i)

/-- Groups of places share the documents of a list out. -/
structure SharesOut (property : String) (documents : List Document)
    (groups : List (List (Fin documents.length))) : Prop where
  /-- Every place is in one group, and there once. -/
  places : groups.flatten.Perm (List.finRange documents.length)
  inOrder : ∀ group ∈ groups, group.Pairwise (· < ·)
  nonempty : ∀ group ∈ groups, group ≠ []
  /-- The groups stand in the order of their first places. -/
  heads : (groups.filterMap List.head?).Pairwise (· < ·)
  together : ∀ group ∈ groups, ∀ i ∈ group, ∀ j,
    j ∈ group ↔ BelongTogether property documents[i] documents[j]

/-- The groups of a grouping, by places. -/
def placeGroups (property : String) (documents : List Document) :
    List (List (Fin documents.length)) :=
  classesOf (fun i j => equalValues property documents[i] documents[j])
    (List.finRange documents.length)

theorem Document.keysDistinct_record (projection : Projection) {document : Document}
    (h : (Value.object document.fields).KeysDistinct) :
    (projection.record document).KeysDistinct := by
  cases projection with
  | all => exact keysDistinct_toValue h
  | only properties =>
      refine ⟨Fields.nodup_keys_ofList _, Fields.fieldsDistinct_iff.mpr fun field hField => ?_⟩
      obtain ⟨property, _, rfl⟩ := List.mem_map.mp (Fields.mem_of_mem_ofList hField)
      exact keysDistinct_valueAt property h

section Documents

variable (property : String) {documents : List Document}
  (h : ∀ document ∈ documents, (Value.object document.fields).KeysDistinct)
include h

/-- Belonging together is an equivalence on the places of the documents. -/
theorem equivalenceOn_places :
    EquivalenceOn (fun i j => equalValues property documents[i] documents[j])
      (List.finRange documents.length) := by
  refine equivalenceOn_map_iff.mp (@Eq.subst _ (EquivalenceOn _) _ _
    (List.map_getElem_finRange documents).symm ?_)
  exact equivalenceOn_equalValues property h

/-- The classes of places whose documents belong together. -/
def placeClasses : Setoid (Fin documents.length) where
  r i j := BelongTogether property documents[i] documents[j]
  iseqv := by
    have hPlaces := equivalenceOn_places property h
    simp only [← equalValues_iff]
    exact {
      refl := fun i => hPlaces.refl i (List.mem_finRange i)
      symm := fun hOne => hPlaces.symm _ (List.mem_finRange _) _ (List.mem_finRange _) hOne
      trans := fun hOne hTwo => hPlaces.trans _ (List.mem_finRange _) _ (List.mem_finRange _) _
        (List.mem_finRange _) hOne hTwo }

/-- Grouping shares the documents out, each to one group. -/
theorem sharesOut_placeGroups : SharesOut property documents (placeGroups property documents) where
  places := (equivalenceOn_places property h).flatten_classesOf_perm
  inOrder group hGroup :=
    (List.pairwise_lt_finRange documents.length).sublist (sublist_of_mem_classesOf hGroup)
  nonempty _ hGroup := (equivalenceOn_places property h).ne_nil_of_mem_classesOf hGroup
  heads := by
    rw [placeGroups, (equivalenceOn_places property h).filterMap_head?_classesOf]
    exact (List.pairwise_lt_finRange documents.length).sublist firstsOf_sublist_items
  together group hGroup i hi j :=
    ((equivalenceOn_places property h).mem_class_iff hGroup hi (List.mem_finRange j)).trans
      equalValues_iff

/-- The rows of the groups are those of their places. -/
theorem rows_placeGroups (projection : Projection) :
    (groupRecords property documents (documents.map projection.record)).map Prod.snd =
      (placeGroups property documents).map (List.map (projection.rowAt documents)) := by
  have hGroups : groupsOf property documents = classesOf (equalValues property) documents := by
    rw [← sameGroup_eq_equalValues]
    rfl
  rw [rows_groupRecords property h, hGroups, classesOf_eq_places, List.map_map]
  refine List.map_congr_left fun group _ => ?_
  exact List.map_map

theorem equivalenceOn_rows (projection : Projection) (group : List (Fin documents.length)) :
    EquivalenceOn (fun i j => (projection.rowAt documents i).equal (projection.rowAt documents j))
      group := by
  have hRow (i : Fin documents.length) : (projection.rowAt documents i).KeysDistinct :=
    Document.keysDistinct_record projection (h _ (List.getElem_mem i.2))
  exact ⟨fun i _ => Value.equal_refl _ (hRow i), fun i _ j _ => Value.equal_symm (hRow i) (hRow j),
    fun _ _ _ _ _ _ => Value.equal_trans⟩

/-- Without repetitions a group has the rows of its first places. -/
theorem distinctValues_group (projection : Projection) {group : List (Fin documents.length)}
    (hOrder : group.Pairwise (· < ·)) :
    distinctValues (group.map (projection.rowAt documents)) =
      (firstPlaces (projection.rowAt documents) group).map (projection.rowAt documents) := by
  rw [distinctValues_eq, firstsOf_map,
    (equivalenceOn_rows h projection group).firstsOf_eq_filter hOrder, firstPlaces]

/-- There are as many buckets as there are classes. -/
theorem length_groupRecords (projection : Projection) :
    (groupRecords property documents (documents.map projection.record)).length =
      Nat.card (Quotient (placeClasses property h)) := by
  have hRows := congrArg List.length (rows_placeGroups property h projection)
  rw [List.length_map, List.length_map, placeGroups, classesOf, List.length_map] at hRows
  rw [hRows]
  exact (equivalenceOn_places property h).length_firstsOf List.mem_finRange
    (List.nodup_finRange documents.length) fun _ _ => equalValues_iff.symm

/-- A grouping shares the records out among its buckets, each with its rows in
the order of the records. A count of it is the number of classes; without
repetitions each bucket has the first row of each class of equal rows. -/
theorem grouping_partitions_records (projection : Projection) :
    ∃ (groups : List (List (Fin documents.length))) (buckets kept : List (String × List Value)),
      buckets = groupRecords property documents (documents.map projection.record) ∧
      SharesOut property documents groups ∧
      buckets.map Prod.snd = groups.map (List.map (projection.rowAt documents)) ∧
      (buckets.map fun bucket => bucket.2.length).sum = documents.length ∧
      arrange projection (some property) (some .count) documents =
        .count (Nat.card (Quotient (placeClasses property h))) ∧
      (∀ group ∈ groups, EquivalenceOn
        (fun i j => (projection.rowAt documents i).equal (projection.rowAt documents j)) group) ∧
      arrange projection (some property) (some .distinct) documents = .grouped kept ∧
      kept.map Prod.fst = buckets.map Prod.fst ∧
      kept.map Prod.snd = groups.map fun group =>
        (firstPlaces (projection.rowAt documents) group).map (projection.rowAt documents) := by
  have hShares := sharesOut_placeGroups property h
  have hRows := rows_placeGroups property h projection
  refine ⟨placeGroups property documents, _, _, rfl, hShares, hRows, ?_, ?_, ?_, rfl, ?_, ?_⟩
  · have hLengths := congrArg (List.map List.length) hRows
    rw [List.map_map, List.map_map] at hLengths
    refine (congrArg List.sum hLengths).trans ?_
    simp only [Function.comp_def, List.length_map]
    rw [← List.length_flatten, hShares.places.length_eq, List.length_finRange]
  · exact congrArg ResultSet.count (length_groupRecords property h projection)
  · exact fun group _ => equivalenceOn_rows h projection group
  · exact List.map_map
  · have hKept := congrArg (List.map distinctValues) hRows
    rw [List.map_map, List.map_map] at hKept
    refine List.map_map.trans (hKept.trans (List.map_congr_left fun group hGroup => ?_))
    exact distinctValues_group h projection (hShares.inOrder group hGroup)

end Documents

/-- The number one, also as a double and once more, beside no value, a null and
the text null. -/
def numbersAndNulls : List Document :=
  [⟨"c/1", [("n", .number (.integer 1))]⟩, ⟨"c/2", []⟩,
    ⟨"c/3", [("n", .number (.real (Double.ofInt 1)))]⟩, ⟨"c/4", [("n", .null)]⟩,
    ⟨"c/5", [("n", .string "null")]⟩, ⟨"c/6", [("n", .number (.integer 1))]⟩]

theorem keysDistinct_numbersAndNulls :
    ∀ document ∈ numbersAndNulls, (Value.object document.fields).KeysDistinct := by
  simp [numbersAndNulls, Value.KeysDistinct, Value.FieldsDistinct, Fields.keys]

/-- One in two forms, `null` and a missing field, and the text `null`: three
groups. -/
theorem grouping_partitions_records_numbersAndNulls :
    ∃ h : ∀ document ∈ numbersAndNulls, (Value.object document.fields).KeysDistinct,
      Nat.card (Quotient (placeClasses "n" h)) = 3 ∧
      ∃ (groups : List (List (Fin numbersAndNulls.length))) (kept : List (String × List Value)),
        SharesOut "n" numbersAndNulls groups ∧ groups.map List.length = [3, 2, 1] ∧
        arrange (.only ["n"]) (some "n") (some .distinct) numbersAndNulls = .grouped kept ∧
        kept.map (fun bucket => bucket.2.length) = [2, 1, 1] := by
  obtain ⟨groups, buckets, kept, hBuckets, hShares, hRows, _, hCount, _, hDistinct, _, _⟩ :=
    grouping_partitions_records "n" keysDistinct_numbersAndNulls (.only ["n"])
  refine ⟨keysDistinct_numbersAndNulls, ?_, groups, kept, hShares, ?_, hDistinct, ?_⟩
  · refine (ResultSet.count.inj hCount).symm.trans ?_
    decide +kernel
  · have hLengths := congrArg (List.map List.length) hRows
    rw [List.map_map, List.map_map, hBuckets] at hLengths
    simp only [Function.comp_def, List.length_map] at hLengths
    refine hLengths.symm.trans ?_
    decide +kernel
  · obtain rfl := ResultSet.grouped.inj hDistinct
    decide +kernel

end DocQuery
