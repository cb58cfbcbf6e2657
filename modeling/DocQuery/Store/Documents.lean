import DocQuery.Store.Document
/-!
The documents of a store, one at each path and in ascending order of the paths.
-/
namespace DocQuery

/-- Documents in ascending order of their paths. -/
structure Documents where
  toList : List Document
  ascending : toList.Pairwise fun a b => a.path < b.path

namespace Documents

def empty : Documents :=
  ⟨[], List.Pairwise.nil⟩

def get? (documents : Documents) (path : String) : Option Fields :=
  (documents.toList.find? fun document => document.path == path).map Document.fields

def contains (documents : Documents) (path : String) : Bool :=
  (documents.get? path).isSome

def size (documents : Documents) : Nat :=
  documents.toList.length

/-- A document put in its place in the order, instead of the one at the same
path. -/
def putInOrder (document : Document) : List Document → List Document
  | [] => [document]
  | first :: rest =>
      if document.path < first.path then document :: first :: rest
      else if document.path = first.path then document :: rest
      else first :: putInOrder document rest

/-- Nothing comes in but the document itself. -/
theorem mem_putInOrder {document other : Document} {documents : List Document}
    (h : other ∈ putInOrder document documents) : other = document ∨ other ∈ documents := by
  induction documents with
  | nil => simpa [putInOrder] using h
  | cons first rest ih =>
      simp only [putInOrder] at h
      split at h
      · simpa using h
      · split at h
        · rcases List.mem_cons.mp h with hNew | hRest
          · exact Or.inl hNew
          · exact Or.inr (List.mem_cons_of_mem _ hRest)
        · rcases List.mem_cons.mp h with hFirst | hRest
          · exact Or.inr (hFirst ▸ List.mem_cons_self)
          · exact (ih hRest).imp_right (List.mem_cons_of_mem _)

/-- Paths stay strictly ascending, so there is still one document at each. -/
theorem pairwise_putInOrder (document : Document) {documents : List Document}
    (h : documents.Pairwise fun a b => a.path < b.path) :
    (putInOrder document documents).Pairwise fun a b => a.path < b.path := by
  induction documents with
  | nil => simp [putInOrder]
  | cons first rest ih =>
      obtain ⟨hFirst, hRest⟩ := List.pairwise_cons.mp h
      simp only [putInOrder]
      split
      · rename_i hBefore
        refine List.pairwise_cons.mpr ⟨fun other hOther => ?_, h⟩
        rcases List.mem_cons.mp hOther with rfl | hBehind
        · exact hBefore
        · exact String.lt_trans hBefore (hFirst other hBehind)
      · rename_i hNotBefore
        split
        · rename_i hSame
          exact List.pairwise_cons.mpr ⟨fun other hOther => hSame ▸ hFirst other hOther, hRest⟩
        · rename_i hNe
          refine List.pairwise_cons.mpr ⟨fun other hOther => ?_, ih hRest⟩
          rcases mem_putInOrder hOther with rfl | hBehind
          · exact Std.lt_of_le_of_ne (Std.not_lt.mp hNotBefore) (Ne.symm hNe)
          · exact hFirst other hBehind

def put (documents : Documents) (path : String) (fields : Fields) : Documents :=
  ⟨putInOrder ⟨path, fields⟩ documents.toList, pairwise_putInOrder _ documents.ascending⟩

def remove (documents : Documents) (path : String) : Documents :=
  ⟨documents.toList.filter fun document => document.path != path,
    documents.ascending.filter _⟩

end Documents

end DocQuery
