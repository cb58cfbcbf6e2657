import DocQuery.Proofs.Selection.Classes
import DocQuery.Proofs.Selection.Labels

/-! Both the buckets of a grouping and the rows without repetitions are led by
the first items of their kinds. What a kind is differs: a bucket goes by
equality of the values it is for, rows go by equality of whole records. Each of
the two is an equivalence between documents that name no field twice, which
makes a bucket the records of one class. -/
namespace DocQuery

/-- A value is unseen if it equals none of those seen before. -/
theorem unseen_cons_seen (earlier : Value) (seen values : List Value) :
    unseen (earlier :: seen) values =
      unseen seen (values.filter fun value => !earlier.equal value) := by
  induction values generalizing seen with
  | nil => rfl
  | cons value rest ih =>
      rw [unseen, List.any_cons]
      cases hEqual : earlier.equal value with
      | true => simp [hEqual, ih]
      | false => simp [hEqual, unseen, ih]

/-- Without repetitions are the values that equal no value before them. -/
theorem distinctValues_eq (values : List Value) :
    distinctValues values = firstsOf Value.equal values := by
  induction values using kinds_induction Value.equal with
  | nil => rfl
  | cons value rest ih =>
      rw [firstsOf_cons, ← ih, distinctValues, distinctValues, ← unseen_cons_seen]
      rfl

/-- The first bucket takes the records of its key, and the others share what is
left. -/
theorem foldl_addToBuckets_cons (entries : List (Option Value × Value)) (bucket : Bucket)
    (buckets : List Bucket) :
    entries.foldl (fun buckets entry => addToBuckets entry.1 entry.2 buckets) (bucket :: buckets) =
      { bucket with rows := bucket.rows ++
          (entries.filter fun entry => sameKey bucket.key entry.1).map Prod.snd } ::
        (entries.filter fun entry => !sameKey bucket.key entry.1).foldl
          (fun buckets entry => addToBuckets entry.1 entry.2 buckets) buckets := by
  induction entries generalizing bucket buckets with
  | nil => simp
  | cons entry rest ih =>
      rw [List.foldl_cons, addToBuckets]
      cases hSame : sameKey bucket.key entry.1 with
      | true => simp [hSame, ih]
      | false => simp [hSame, ih]

/-- The entries whose keys belong into one bucket. -/
def sameEntry (a b : Option Value × Value) : Bool :=
  sameKey a.1 b.1

/-- A bucket for each first entry of its key, with the records of all entries of
that key. -/
theorem bucketsOf_eq {entries : List (Option Value × Value)} (h : EquivalenceOn sameEntry entries) :
    bucketsOf entries = (firstsOf sameEntry entries).map fun first =>
      ⟨first.1, (entries.filter (sameEntry first)).map Prod.snd⟩ := by
  induction entries using kinds_induction sameEntry with
  | nil => rfl
  | cons first rest ih =>
      have hFirst : sameEntry first first = true := h.refl first List.mem_cons_self
      have hRest : bucketsOf (first :: rest) =
          ⟨first.1, first.2 :: (rest.filter (sameEntry first)).map Prod.snd⟩ ::
            bucketsOf (rest.filter fun entry => !sameEntry first entry) :=
        foldl_addToBuckets_cons rest ⟨first.1, [first.2]⟩ []
      rw [hRest, ih h.tail, firstsOf_cons, List.map_cons, List.filter_cons_of_pos hFirst,
        List.map_cons]
      refine congrArg _ (List.map_congr_left fun later hLater => ?_)
      rw [h.filter_apart (firstsOf_subset hLater)]

theorem sameKey_symm {a b : Option Value} (ha : IsGroupKey a) (hb : IsGroupKey b)
    (h : sameKey a b = true) : sameKey b a = true := by
  cases a with
  | none =>
      cases b with
      | none => rfl
      | some second => cases h
  | some first =>
      cases b with
      | none => cases h
      | some second => exact Value.equal_symm (ha first rfl).2 (hb second rfl).2 h

/-- Keys of one bucket are alike among themselves. -/
theorem sameKey_trans {a b c : Option Value} (hFirst : sameKey a b = true)
    (hSecond : sameKey b c = true) : sameKey a c = true := by
  cases a with
  | none =>
      cases b with
      | none => exact hSecond
      | some second => cases hFirst
  | some first =>
      cases b with
      | none => cases hFirst
      | some second =>
          cases c with
          | none => cases hSecond
          | some third => exact Value.equal_trans hFirst hSecond

/-- Whether two documents belong into one bucket. -/
def sameGroup (property : String) (a b : Document) : Bool :=
  sameKey (groupKey property a) (groupKey property b)

/-- The documents of a grouping, bucket by bucket. -/
def groupsOf (property : String) (documents : List Document) : List (List Document) :=
  (firstsOf (sameGroup property) documents).map fun first =>
    documents.filter (sameGroup property first)

section Documents

variable (property : String) {documents : List Document}
  (h : ∀ document ∈ documents, (Value.object document.fields).KeysDistinct)
include h

/-- Falling into one bucket is an equivalence on documents with distinct
names. -/
theorem equivalenceOn_sameGroup : EquivalenceOn (sameGroup property) documents where
  refl a ha := sameKey_refl (isGroupKey_groupKey property (h a ha))
  symm a ha b hb := sameKey_symm (isGroupKey_groupKey property (h a ha))
    (isGroupKey_groupKey property (h b hb))
  trans _ _ _ _ _ _ := sameKey_trans

/-- A bucket for each first document of its group, with the records of the whole
group. -/
theorem groupBuckets_eq (record : Document → Value) :
    groupBuckets property documents (documents.map record) =
      (firstsOf (sameGroup property) documents).map fun first =>
        ⟨groupKey property first, (documents.filter (sameGroup property first)).map record⟩ := by
  have hEntries : (documents.map (groupKey property)).zip (documents.map record) =
      documents.map fun document => (groupKey property document, record document) :=
    List.zip_map'
  have hSame : EquivalenceOn (fun a b => sameEntry (groupKey property a, record a)
      (groupKey property b, record b)) documents := equivalenceOn_sameGroup property h
  rw [groupBuckets, hEntries, bucketsOf_eq (equivalenceOn_map_iff.mpr hSame), firstsOf_map,
    List.map_map]
  refine List.map_congr_left fun first _ => ?_
  rw [Function.comp_apply, List.filter_map, List.map_map]
  rfl

/-- The rows of the groups are the records of their documents. -/
theorem rows_groupRecords (record : Document → Value) :
    (groupRecords property documents (documents.map record)).map Prod.snd =
      (groupsOf property documents).map (List.map record) := by
  have hRows : (groupRecords property documents (documents.map record)).map Prod.snd =
      (groupBuckets property documents (documents.map record)).map Bucket.rows := by
    simp only [groupRecords, List.map_map]
    rfl
  rw [hRows, groupBuckets_eq property h, groupsOf, List.map_map, List.map_map]
  rfl

/-- With a document are in its group exactly the documents that are grouped with
it. -/
theorem mem_group_iff {group : List Document} (hGroup : group ∈ groupsOf property documents)
    {a b : Document} (ha : a ∈ group) (hb : b ∈ documents) :
    b ∈ group ↔ sameGroup property a b = true :=
  (equivalenceOn_sameGroup property h).mem_class_iff hGroup ha hb

end Documents

end DocQuery
