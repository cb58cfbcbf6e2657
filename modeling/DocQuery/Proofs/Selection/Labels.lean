import DocQuery.Proofs.Document.Associativity
import DocQuery.Proofs.Value.Equality
import DocQuery.Proofs.Value.Text
import DocQuery.Selection.Arrangement

/-! Labels of groups. The buckets of a grouping have different keys, and a text
that another value reads as in JSON is labelled by its quoted form. That form
may itself be the text of a third bucket; then two buckets share a label and the
JSON object keeps only the later one. In all other cases the object has a field
for every bucket. -/
namespace DocQuery

theorem Document.keysDistinct_toValue {document : Document}
    (h : (Value.object document.fields).KeysDistinct) : document.toValue.KeysDistinct :=
  Fields.keysDistinct_set h _ trivial

/-- A value by which documents can be grouped: none, or one other than null. -/
def IsGroupKey (key : Option Value) : Prop :=
  ∀ value ∈ key, value ≠ .null ∧ value.KeysDistinct

theorem isGroupKey_groupKey (property : String) {document : Document}
    (h : (Value.object document.fields).KeysDistinct) :
    IsGroupKey (groupKey property document) := by
  intro value hValue
  rw [groupKey] at hValue
  split at hValue
  · cases hValue
  · rename_i hNull
    refine ⟨fun hSame => hNull (hSame ▸ hValue), ?_⟩
    exact Value.keysDistinct_of_follow (Document.keysDistinct_toValue h) hValue

theorem sameKey_refl {key : Option Value} (h : IsGroupKey key) : sameKey key key = true := by
  cases key with
  | none => rfl
  | some value => exact value.equal_refl (h value rfl).2

/-- Buckets as a grouping makes them: no two have the same key. -/
structure Separate (buckets : List Bucket) : Prop where
  nodup : (buckets.map Bucket.key).Nodup
  isGroupKey : ∀ bucket ∈ buckets, IsGroupKey bucket.key

/-- A row goes into the bucket of its key, or a new bucket is put at the end. -/
theorem keys_addToBuckets (key : Option Value) (row : Value) (buckets : List Bucket) :
    (addToBuckets key row buckets).map Bucket.key =
      if buckets.any (fun bucket => sameKey bucket.key key) then buckets.map Bucket.key
      else buckets.map Bucket.key ++ [key] := by
  induction buckets with
  | nil => rfl
  | cons bucket rest ih =>
      rw [addToBuckets, List.any_cons]
      cases sameKey bucket.key key with
      | true => rfl
      | false =>
          rw [if_neg Bool.false_ne_true, List.map_cons, ih, Bool.false_or]
          split <;> rfl

/-- A new bucket is made only for a key that no bucket has. -/
theorem Separate.addToBuckets {buckets : List Bucket} (h : Separate buckets) {key : Option Value}
    (hKey : IsGroupKey key) (row : Value) : Separate (addToBuckets key row buckets) := by
  have hKeys := keys_addToBuckets key row buckets
  split at hKeys
  · refine ⟨hKeys ▸ h.nodup, fun bucket hBucket => ?_⟩
    have hOld : bucket.key ∈ buckets.map Bucket.key := hKeys ▸ List.mem_map_of_mem hBucket
    obtain ⟨old, hMember, hSame⟩ := List.mem_map.mp hOld
    exact hSame ▸ h.isGroupKey old hMember
  · rename_i hNew
    have hAbsent : key ∉ buckets.map Bucket.key := by
      rintro hOld
      obtain ⟨old, hMember, rfl⟩ := List.mem_map.mp hOld
      exact hNew (List.any_eq_true.mpr ⟨old, hMember, sameKey_refl hKey⟩)
    have hNodup := h.nodup.concat hAbsent
    rw [List.concat_eq_append, ← hKeys] at hNodup
    refine ⟨hNodup, fun bucket hBucket => ?_⟩
    have hEither : bucket.key ∈ buckets.map Bucket.key ++ [key] :=
      hKeys ▸ List.mem_map_of_mem hBucket
    rcases List.mem_append.mp hEither with hOld | hLast
    · obtain ⟨old, hMember, hSame⟩ := List.mem_map.mp hOld
      exact hSame ▸ h.isGroupKey old hMember
    · exact List.mem_singleton.mp hLast ▸ hKey

/-- No two buckets have the same key. -/
theorem separate_bucketsOf {entries : List (Option Value × Value)}
    (h : ∀ entry ∈ entries, IsGroupKey entry.1) : Separate (bucketsOf entries) := by
  induction entries using List.reverseRecOn with
  | nil => exact ⟨List.nodup_nil, by simp [bucketsOf]⟩
  | append_singleton entries entry ih =>
      rw [bucketsOf, List.foldl_append]
      exact (ih fun earlier hEarlier => h earlier (List.mem_append_left _ hEarlier)).addToBuckets
        (h entry (by simp)) entry.2

/-- The text that a bucket is for, if it is for a text. -/
def Bucket.text? (bucket : Bucket) : Option String :=
  bucket.key.bind Value.text?

namespace Bucket

variable {bucket : Bucket} {text : String}

theorem key_of_text? (h : bucket.text? = some text) : bucket.key = some (.string text) := by
  obtain ⟨value, hKey, hText⟩ := Option.bind_eq_some_iff.mp h
  cases value with
  | string s => rw [hKey, Option.some.inj hText]
  | null | bool b | number n | array items | object fields => cases hText

theorem plainLabel_of_text? (h : bucket.text? = some text) : bucket.plainLabel = text := by
  rw [plainLabel, key_of_text? h]

/-- A value other than a text is labelled by its JSON, where none counts as
null. -/
theorem plainLabel_of_no_text (h : bucket.text? = none) :
    bucket.plainLabel = (bucket.key.getD .null).compact := by
  obtain ⟨key, rows⟩ := bucket
  match key with
  | none => rfl
  | some (.string s) => cases h
  | some .null | some (.bool _) | some (.number _) | some (.array _) | some (.object _) => rfl

/-- A bucket of texts is labelled with its text, or with its quoted form if
another plain label is the same. -/
theorem label_of_text? (plainLabels : List String) (h : bucket.text? = some text) :
    bucket.label plainLabels =
      if 1 < plainLabels.count text then Value.quote text else text := by
  rw [label, key_of_text? h]
  rfl

/-- Every other bucket is labelled with the JSON of its key. -/
theorem label_of_no_text (plainLabels : List String) (h : bucket.text? = none) :
    bucket.label plainLabels = bucket.plainLabel := by
  obtain ⟨key, rows⟩ := bucket
  match key with
  | some (.string s) => cases h
  | none => rfl
  | some .null | some (.bool _) | some (.number _) | some (.array _) | some (.object _) => rfl

/-- No value other than a text reads as a quoted text. -/
theorem plainLabel_ne_quote (h : bucket.text? = none) (text : String) :
    bucket.plainLabel ≠ Value.quote text := by
  intro hLabel
  rw [plainLabel_of_no_text h] at hLabel
  have hValue : bucket.key.getD .null = .string text := Value.compact_injective hLabel
  cases hKey : bucket.key with
  | none => simp [hKey] at hValue
  | some value =>
      rw [hKey, Option.getD_some] at hValue
      simp [text?, hKey, hValue, Value.text?] at h

end Bucket

/-- Escaping makes no text shorter. -/
theorem Value.length_le_escapes (text : List Char) :
    text.length ≤ (text.flatMap escape).length := by
  induction text with
  | nil => exact Nat.le_refl 0
  | cons c text ih =>
      have hEscape : 1 ≤ (escape c).length := by
        unfold escape
        split_ifs <;> simp
      rw [List.flatMap_cons, List.length_append, List.length_cons]
      omega

/-- No text is its own quoted form, since quoting adds two characters. -/
theorem Value.quote_ne_self (text : String) : quote text ≠ text := by
  intro hSame
  have hLength := congrArg (fun s => s.toList.length) hSame
  have hEscapes := length_le_escapes text.toList
  simp only [quote, String.toList_ofList, List.length_cons, List.length_append,
    List.length_nil] at hLength
  omega

/-- Texts are told apart by their quoted forms. -/
theorem Value.quote_injective {s t : String} (h : quote s = quote t) : s = t :=
  (@quote_cancel s t [] [] (by rw [h])).1

/-- Whether a value other than a text reads as a text. -/
def Clashes (buckets : List Bucket) (text : String) : Prop :=
  ∃ other ∈ buckets, other.text? = none ∧ other.plainLabel = text

/-- Some text needs its quoted form, which is the text of another bucket. -/
def QuotedFormTaken (buckets : List Bucket) : Prop :=
  ∃ text, Clashes buckets text ∧ (∃ bucket ∈ buckets, bucket.text? = some text) ∧
    ∃ bucket ∈ buckets, bucket.text? = some (Value.quote text)

/-- A value is repeated exactly if another item has it. -/
theorem one_lt_count_map_iff {α β : Type} [DecidableEq β] {f : α → β} {items : List α}
    (h : items.Nodup) {item : α} (hItem : item ∈ items) :
    1 < (items.map f).count (f item) ↔ ∃ other ∈ items, other ≠ item ∧ f other = f item := by
  obtain ⟨before, after, rfl⟩ := List.append_of_mem hItem
  obtain ⟨hApart, hRest⟩ := List.nodup_cons.mp (List.nodup_middle.mp h)
  have hCount : ((before ++ item :: after).map f).count (f item) =
      ((before ++ after).map f).count (f item) + 1 := by
    simp only [List.map_append, List.map_cons, List.count_append, List.count_cons_self]
    omega
  rw [hCount, Nat.lt_add_left_iff_pos, List.count_pos_iff, List.mem_map]
  constructor
  · rintro ⟨other, hOther, hSame⟩
    refine ⟨other, ?_, fun hEq => hApart (hEq ▸ hOther), hSame⟩
    rw [List.mem_append] at hOther ⊢
    exact hOther.imp_right (List.mem_cons_of_mem item)
  · rintro ⟨other, hOther, hDiffer, hSame⟩
    refine ⟨other, ?_, hSame⟩
    simpa [hDiffer] using hOther

namespace Separate

variable {buckets : List Bucket} (h : Separate buckets)
include h

theorem nodup_buckets : buckets.Nodup :=
  List.Nodup.of_map _ h.nodup

theorem eq_of_key {a b : Bucket} (ha : a ∈ buckets) (hb : b ∈ buckets) (hKey : a.key = b.key) :
    a = b :=
  List.inj_on_of_nodup_map h.nodup ha hb hKey

theorem eq_of_text? {a b : Bucket} (ha : a ∈ buckets) (hb : b ∈ buckets) {text : String}
    (hTextA : a.text? = some text) (hTextB : b.text? = some text) : a = b :=
  h.eq_of_key ha hb ((Bucket.key_of_text? hTextA).trans (Bucket.key_of_text? hTextB).symm)

/-- Values other than texts are told apart by their plain labels. -/
theorem eq_of_plainLabel {a b : Bucket} (ha : a ∈ buckets) (hb : b ∈ buckets)
    (hTextA : a.text? = none) (hTextB : b.text? = none) (hLabel : a.plainLabel = b.plainLabel) :
    a = b := by
  rw [Bucket.plainLabel_of_no_text hTextA, Bucket.plainLabel_of_no_text hTextB] at hLabel
  have hValue := Value.compact_injective hLabel
  refine h.eq_of_key ha hb ?_
  cases hKeyA : a.key with
  | none =>
      cases hKeyB : b.key with
      | none => rfl
      | some value =>
          rw [hKeyA, hKeyB] at hValue
          exact absurd hValue.symm (h.isGroupKey b hb value hKeyB).1
  | some first =>
      cases hKeyB : b.key with
      | none =>
          rw [hKeyA, hKeyB] at hValue
          exact absurd hValue (h.isGroupKey a ha first hKeyA).1
      | some second =>
          rw [hKeyA, hKeyB] at hValue
          exact congrArg some hValue

/-- A plain label is repeated exactly if it clashes. -/
theorem one_lt_count_iff {bucket : Bucket} (hBucket : bucket ∈ buckets) {text : String}
    (hText : bucket.text? = some text) :
    1 < (buckets.map Bucket.plainLabel).count text ↔ Clashes buckets text := by
  have hPlain := Bucket.plainLabel_of_text? hText
  rw [← hPlain, one_lt_count_map_iff h.nodup_buckets hBucket]
  constructor
  · rintro ⟨other, hOther, hDiffer, hLabel⟩
    refine ⟨other, hOther, ?_, hLabel⟩
    cases hOtherText : other.text? with
    | none => rfl
    | some second =>
        rw [Bucket.plainLabel_of_text? hOtherText, hPlain] at hLabel
        exact absurd (h.eq_of_text? hOther hBucket (hLabel ▸ hOtherText) hText) hDiffer
  · rintro ⟨other, hOther, hNone, hLabel⟩
    refine ⟨other, hOther, ?_, hLabel⟩
    rintro rfl
    cases hNone.symm.trans hText

/-- A text that clashes is quoted. -/
theorem label_of_clashes {bucket : Bucket} (hBucket : bucket ∈ buckets) {text : String}
    (hText : bucket.text? = some text) (hClash : Clashes buckets text) :
    bucket.label (buckets.map Bucket.plainLabel) = Value.quote text := by
  rw [Bucket.label_of_text? _ hText, if_pos ((h.one_lt_count_iff hBucket hText).mpr hClash)]

theorem label_of_not_clashes {bucket : Bucket} (hBucket : bucket ∈ buckets) {text : String}
    (hText : bucket.text? = some text) (hClash : ¬ Clashes buckets text) :
    bucket.label (buckets.map Bucket.plainLabel) = text := by
  rw [Bucket.label_of_text? _ hText, if_neg (mt (h.one_lt_count_iff hBucket hText).mp hClash)]

/-- The label of a text is that of no other value. -/
theorem label_ne {first second : Bucket} (hFirst : first ∈ buckets) (hSecond : second ∈ buckets)
    {text : String} (hNone : first.text? = none) (hText : second.text? = some text) :
    first.label (buckets.map Bucket.plainLabel) ≠
      second.label (buckets.map Bucket.plainLabel) := by
  rw [Bucket.label_of_no_text _ hNone]
  by_cases hClash : Clashes buckets text
  · rw [h.label_of_clashes hSecond hText hClash]
    exact Bucket.plainLabel_ne_quote hNone text
  · rw [h.label_of_not_clashes hSecond hText hClash]
    exact fun hLabel => hClash ⟨first, hFirst, hNone, hLabel⟩

omit h in
/-- A quoted form clashes with nothing. -/
theorem not_clashes_quote (text : String) : ¬ Clashes buckets (Value.quote text) :=
  fun ⟨_, _, hNone, hLabel⟩ => Bucket.plainLabel_ne_quote hNone text hLabel

/-- Buckets have different labels unless the quoted form of a text is taken. -/
theorem nodup_labels_iff :
    (buckets.map (Bucket.label (buckets.map Bucket.plainLabel))).Nodup ↔
      ¬ QuotedFormTaken buckets := by
  rw [List.nodup_map_iff_inj_on h.nodup_buckets]
  constructor
  · rintro hInjective ⟨text, hClash, ⟨first, hFirst, hText⟩, second, hSecond, hQuoted⟩
    have hLabels : first.label (buckets.map Bucket.plainLabel) =
        second.label (buckets.map Bucket.plainLabel) := by
      rw [h.label_of_clashes hFirst hText hClash,
        h.label_of_not_clashes hSecond hQuoted (not_clashes_quote text)]
    rw [← hInjective first hFirst second hSecond hLabels, hText] at hQuoted
    exact Value.quote_ne_self text (Option.some.inj hQuoted).symm
  · intro hFree first hFirst second hSecond hLabels
    cases hTextA : first.text? with
    | none =>
        cases hTextB : second.text? with
        | none =>
            rw [Bucket.label_of_no_text _ hTextA, Bucket.label_of_no_text _ hTextB] at hLabels
            exact h.eq_of_plainLabel hFirst hSecond hTextA hTextB hLabels
        | some text => exact absurd hLabels (h.label_ne hFirst hSecond hTextA hTextB)
    | some text =>
        cases hTextB : second.text? with
        | none => exact absurd hLabels.symm (h.label_ne hSecond hFirst hTextB hTextA)
        | some other =>
            by_cases hClashA : Clashes buckets text <;> by_cases hClashB : Clashes buckets other
            · rw [h.label_of_clashes hFirst hTextA hClashA,
                h.label_of_clashes hSecond hTextB hClashB] at hLabels
              rw [Value.quote_injective hLabels] at hTextA
              exact h.eq_of_text? hFirst hSecond hTextA hTextB
            · rw [h.label_of_clashes hFirst hTextA hClashA,
                h.label_of_not_clashes hSecond hTextB hClashB] at hLabels
              exact absurd ⟨text, hClashA, ⟨first, hFirst, hTextA⟩, second, hSecond,
                hLabels ▸ hTextB⟩ hFree
            · rw [h.label_of_not_clashes hFirst hTextA hClashA,
                h.label_of_clashes hSecond hTextB hClashB] at hLabels
              exact absurd ⟨other, hClashB, ⟨second, hSecond, hTextB⟩, first, hFirst,
                hLabels ▸ hTextA⟩ hFree
            · rw [h.label_of_not_clashes hFirst hTextA hClashA,
                h.label_of_not_clashes hSecond hTextB hClashB] at hLabels
              exact h.eq_of_text? hFirst hSecond hTextA (hLabels ▸ hTextB)

end Separate

/-- The buckets of documents with their records. -/
def groupBuckets (property : String) (documents : List Document) (rows : List Value) :
    List Bucket :=
  bucketsOf ((documents.map (groupKey property)).zip rows)

/-- Every group is a field of the JSON object. -/
structure GroupsKept (groups : List (String × List Value)) : Prop where
  labels : (groups.map Prod.fst).Nodup
  toValue : (ResultSet.grouped groups).toValue =
    .object (groups.map fun group => (group.1, .array group.2))

/-- Two groups have one label, so that the JSON object has too few fields. -/
structure GroupLost (groups : List (String × List Value)) : Prop where
  labels : ¬ (groups.map Prod.fst).Nodup
  toValue : ∃ fields, (ResultSet.grouped groups).toValue = .object fields ∧
    fields.length < groups.length

theorem map_fst_groupFields (groups : List (String × List Value)) :
    (groups.map fun group => (group.1, Value.array group.2)).map Prod.fst =
      groups.map Prod.fst := by
  rw [List.map_map]
  rfl

/-- Every group is kept exactly if no label is used twice. -/
theorem groupsKept_iff (groups : List (String × List Value)) :
    GroupsKept groups ↔ (groups.map Prod.fst).Nodup := by
  constructor
  · exact GroupsKept.labels
  · intro hNodup
    refine ⟨hNodup, ?_⟩
    rw [ResultSet.toValue, Fields.ofList_eq_self (map_fst_groupFields groups ▸ hNodup)]

/-- A group is lost exactly if a label is used twice. -/
theorem groupLost_iff (groups : List (String × List Value)) :
    GroupLost groups ↔ ¬ (groups.map Prod.fst).Nodup := by
  constructor
  · exact GroupLost.labels
  · intro hRepeated
    have hLength := Fields.length_ofList_lt (map_fst_groupFields groups ▸ hRepeated)
    rw [List.length_map] at hLength
    exact ⟨hRepeated, _, rfl, hLength⟩

section Groups

variable (property : String) {documents : List Document}
  (h : ∀ document ∈ documents, (Value.object document.fields).KeysDistinct) (rows : List Value)
include h

theorem separate_groupBuckets : Separate (groupBuckets property documents rows) := by
  refine separate_bucketsOf fun entry hEntry => ?_
  obtain ⟨document, hDocument, hKey⟩ := List.mem_map.mp (List.of_mem_zip hEntry).1
  exact hKey ▸ isGroupKey_groupKey property (h document hDocument)

/-- The JSON object of a grouping has every group as a field, unless the quoted
form of a text is taken; then groups are lost. -/
theorem groupRecords_kept_or_lost :
    (GroupsKept (groupRecords property documents rows) ↔
      ¬ QuotedFormTaken (groupBuckets property documents rows)) ∧
    (GroupLost (groupRecords property documents rows) ↔
      QuotedFormTaken (groupBuckets property documents rows)) := by
  have hLabels : (groupRecords property documents rows).map Prod.fst =
      (groupBuckets property documents rows).map
        (Bucket.label ((groupBuckets property documents rows).map Bucket.plainLabel)) := by
    simp only [groupRecords, List.map_map]
    rfl
  have hNodup := (separate_groupBuckets property h rows).nodup_labels_iff
  rw [groupsKept_iff, groupLost_iff, hLabels, hNodup, not_not]
  exact ⟨Iff.rfl, Iff.rfl⟩

end Groups

/-- A document for the text `null`, one for none and one for that text between
quotes. -/
def nullTexts : List Document :=
  [⟨"c/1", [("k", .string "null"), ("n", .bool true)]⟩, ⟨"c/2", [("n", .bool false)]⟩,
    ⟨"c/3", [("k", .string "\"null\""), ("n", .null)]⟩]

/-- The quoted label of the first bucket is the text of the third. -/
theorem labels_nullTexts :
    (groupRecords "k" nullTexts (nullTexts.map (Projection.only ["n"]).record)).map Prod.fst =
      ["\"null\"", "null", "\"null\""] := by
  rfl

theorem not_nodup_labels :
    ¬ ((groupRecords "k" nullTexts (nullTexts.map (Projection.only ["n"]).record)).map
      Prod.fst).Nodup := by
  rw [labels_nullTexts]
  decide

/-- A missing field, the text `null` and its quoted form: two of three buckets
share a label. -/
theorem groupRecords_kept_or_lost_nullTexts :
    (∀ document ∈ nullTexts, (Value.object document.fields).KeysDistinct) ∧
      GroupLost (groupRecords "k" nullTexts (nullTexts.map (Projection.only ["n"]).record)) := by
  have hDistinct : ∀ document ∈ nullTexts, (Value.object document.fields).KeysDistinct := by
    simp [nullTexts, Value.KeysDistinct, Value.FieldsDistinct, Fields.keys]
  have hTaken : QuotedFormTaken
      (groupBuckets "k" nullTexts (nullTexts.map (Projection.only ["n"]).record)) :=
    ⟨"null", ⟨_, .tail _ (.head _), rfl, rfl⟩, ⟨_, .head _, rfl⟩,
      ⟨_, .tail _ (.tail _ (.head _)), rfl⟩⟩
  obtain ⟨_, hLost⟩ :=
    groupRecords_kept_or_lost "k" hDistinct (nullTexts.map (Projection.only ["n"]).record)
  exact ⟨hDistinct, hLost.mpr hTaken⟩

end DocQuery
