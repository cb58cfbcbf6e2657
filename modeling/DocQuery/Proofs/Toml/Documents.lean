import DocQuery.Proofs.Toml.Tables
import DocQuery.Toml.Read

/-! What a document that can be read is made of. Its table comes from its lines
one after the other, every value of a line stands at the path of the line in the
end, and no table has a key twice. -/
namespace DocQuery.Toml

/-- A value as a line gives it to a key. -/
structure Node.IsWritten (node : Node) : Prop where
  isClosed : node.isClosed = true
  keysDistinct : node.KeysDistinct

/-- A line as it can be read. -/
def Line.IsRead : Line → Prop
  | .pair _ node => node.IsWritten
  | _ => True

namespace Reader

variable {α β : Type} {wanted : α → Prop} {goal : β → Prop}

/-- Whatever a reader takes from a text has a property. -/
def Gives (reader : Reader α) (wanted : α → Prop) : Prop :=
  ∀ text part rest, reader text = some (part, rest) → wanted part

theorem gives_pure {part : α} (h : wanted part) : Gives (pure part : Reader α) wanted := by
  intro text found rest hRead
  cases hRead
  exact h

theorem gives_failure : Gives (failure : Reader α) wanted :=
  fun _ _ _ hRead => by cases hRead

theorem gives_any (reader : Reader α) : Gives reader fun _ => True :=
  fun _ _ _ _ => trivial

/-- A step that reads nothing. -/
theorem gives_liftM (result : Option α) :
    Gives (liftM result : Reader α) fun part => result = some part := by
  intro text part rest hRead
  obtain ⟨found, hFound, hSame⟩ := Option.bind_eq_some_iff.mp hRead
  cases hSame
  exact hFound

/-- Readers one after the other. -/
theorem Gives.bind {reader : Reader α} {next : α → Reader β} (h : Gives reader wanted)
    (hNext : ∀ part, wanted part → Gives (next part) goal) : Gives (reader >>= next) goal := by
  intro text result rest hRead
  obtain ⟨⟨part, middle⟩, hPart, hResult⟩ := Option.bind_eq_some_iff.mp hRead
  exact hNext part (h text part middle hPart) middle result rest hResult

/-- What the first reader takes does not matter. -/
theorem Gives.after {reader : Reader α} {next : α → Reader β}
    (hNext : ∀ part, Gives (next part) goal) : Gives (reader >>= next) goal :=
  (gives_any reader).bind fun part _ => hNext part

theorem Gives.ite {c : Prop} [Decidable c] {left right : Reader α} (hLeft : Gives left wanted)
    (hRight : Gives right wanted) : Gives (if c then left else right) wanted := by
  split
  · exact hLeft
  · exact hRight

/-- A weaker property holds as well. -/
theorem Gives.mono {reader : Reader α} {other : α → Prop} (h : Gives reader wanted)
    (hMono : ∀ part, wanted part → other part) : Gives reader other :=
  fun text part rest hRead => hMono part (h text part rest hRead)

end Reader

open Reader

section Values

theorem isWritten_integerInRange {n : Int} {node : Node} (h : integerInRange n = some node) :
    node.IsWritten := by
  obtain ⟨-, h⟩ := Option.ite_none_right_eq_some.mp h
  rw [← Option.some.inj h]
  exact ⟨rfl, .integer n⟩

/-- In whatever base it is written, an integer is one. -/
theorem isWritten_integer? {text : List Char} {node : Node} (h : integer? text = some node) :
    node.IsWritten := by
  unfold integer? at h
  split at h <;> exact isWritten_integerInRange (Option.ite_none_right_eq_some.mp h).2

/-- Values without quotes and brackets have nothing inside them. -/
theorem isWritten_scalar? {text : List Char} {node : Node} (h : scalar? text = some node) :
    node.IsWritten := by
  rw [scalar?] at h
  split at h
  · exact Option.some.inj h ▸ ⟨rfl, .bool true⟩
  split at h
  · exact Option.some.inj h ▸ ⟨rfl, .bool false⟩
  split at h
  · exact Option.some.inj h ▸ ⟨rfl, .moment⟩
  split at h
  · exact Option.some.inj h ▸ ⟨rfl, .float⟩
  · exact isWritten_integer? h

theorem gives_readScalar : Gives readScalar Node.IsWritten := by
  refine Gives.after fun next => ?_
  split
  · exact Gives.after fun text => gives_pure ⟨rfl, .string text⟩
  · exact Gives.after fun text => gives_pure ⟨rfl, .string text⟩
  · refine Gives.after fun text => ?_
    dsimp only
    split
    · exact Gives.after fun _ => gives_pure (isWritten_scalar? ‹_›)
    · exact gives_failure

/-- Arrays hold written values. -/
theorem gives_readItems {item : Reader Node} (h : Gives item Node.IsWritten) (budget : Nat) :
    Gives (readItems item budget) fun items => ∀ node ∈ items, node.IsWritten := by
  induction budget with
  | zero => exact gives_failure
  | succ budget ih =>
      refine Gives.after fun _ => Gives.after fun _ => .ite ?_ ?_
      · exact Gives.after fun _ => gives_pure (by simp)
      · refine h.bind fun first hFirst => Gives.after fun _ => Gives.after fun _ => .ite ?_ ?_
        · refine Gives.after fun _ => ih.bind fun items hItems => gives_pure ?_
          exact List.forall_mem_cons.mpr ⟨hFirst, hItems⟩
        · exact Gives.after fun _ => gives_pure (List.forall_mem_singleton.mpr hFirst)

theorem gives_readPair {value : Reader Node} (h : Gives value Node.IsWritten) :
    Gives (readPair value) fun pair => pair.2.IsWritten :=
  Gives.after fun _ => Gives.after fun _ => Gives.after fun _ => h.bind fun _ hNode =>
    Gives.after fun _ => gives_pure hNode

theorem gives_readPairs {value : Reader Node} (h : Gives value Node.IsWritten) (budget : Nat) :
    Gives (readPairs value budget) fun pairs => ∀ pair ∈ pairs, pair.2.IsWritten := by
  induction budget with
  | zero => exact gives_failure
  | succ budget ih =>
      refine (gives_readPair h).bind fun pair hPair => Gives.after fun _ => .ite ?_ ?_
      · refine Gives.after fun _ => ih.bind fun pairs hPairs => gives_pure ?_
        exact List.forall_mem_cons.mpr ⟨hPair, hPairs⟩
      · exact Gives.after fun _ => gives_pure (List.forall_mem_singleton.mpr hPair)

/-- Pairs given to a table one after the other let it grow. -/
theorem gives_assign_all {pairs : List (List String × Node)}
    (hPairs : ∀ pair ∈ pairs, pair.2.IsWritten) (entries : Entries) :
    Gives (pairs.foldlM (fun entries pair => liftM (Entries.assign pair.1 pair.2 entries)) entries)
      entries.Grows := by
  induction pairs generalizing entries with
  | nil => exact gives_pure (.refl entries)
  | cons pair pairs ih =>
      obtain ⟨hPair, hRest⟩ := List.forall_mem_cons.mp hPairs
      rw [List.foldlM_cons]
      refine (gives_liftM _).bind fun middle hMiddle => ?_
      refine (ih hRest middle).mono fun after hAfter => ?_
      exact (Entries.grows_assign hPair.keysDistinct hMiddle).trans hAfter

/-- A table between braces is closed, and its keys are distinct. -/
theorem gives_readInline {value : Reader Node} (h : Gives value Node.IsWritten) :
    Gives (readInline value) Node.IsWritten := by
  refine Gives.after fun _ => Gives.after fun _ => .ite ?_ ?_
  · refine Gives.after fun _ => gives_pure ⟨rfl, ?_⟩
    exact Entries.keysDistinct_table.mpr Entries.keysDistinct_nil
  · refine Gives.after fun text => (gives_readPairs h _).bind fun pairs hPairs => ?_
    refine (gives_assign_all hPairs []).bind fun entries hGrows => gives_pure ⟨rfl, ?_⟩
    exact Entries.keysDistinct_table.mpr (hGrows.keysDistinct Entries.keysDistinct_nil)

/-- However deep brackets and braces go, a value that is read is a written
one. -/
theorem gives_readValue (depth : Nat) : Gives (readValue depth) Node.IsWritten := by
  induction depth with
  | zero =>
      refine Gives.after fun next => ?_
      split
      · exact gives_failure
      · exact gives_failure
      · exact gives_readScalar
  | succ depth ih =>
      refine Gives.after fun next => ?_
      split
      · refine Gives.after fun _ => Gives.after fun _ =>
          (gives_readItems ih _).bind fun items hItems => ?_
        exact gives_pure ⟨rfl, .array fun item hItem => (hItems item hItem).keysDistinct⟩
      · exact Gives.after fun _ => gives_readInline ih
      · exact gives_readScalar

end Values

section Lines

/-- A line gives its key a written value. -/
theorem gives_readLine : Gives readLine Line.IsRead := by
  refine Gives.after fun _ => Gives.after fun text => ?_
  split
  · exact Gives.after fun _ => Gives.after fun _ => Gives.after fun _ => Gives.after fun _ =>
      Gives.after fun _ => gives_pure trivial
  · exact Gives.after fun _ => Gives.after fun _ => Gives.after fun _ => Gives.after fun _ =>
      gives_pure trivial
  · refine .ite ?_ ?_
    · exact Gives.after fun _ => gives_pure trivial
    · exact (gives_readPair (gives_readValue _)).bind fun pair hPair => Gives.after fun _ =>
        gives_pure hPair
  · exact gives_pure trivial

/-- The lines of a document are taken into it one after the other. -/
theorem gives_readLines (budget : Nat) (draft : Draft) :
    Gives (readLines budget draft) fun last => ∃ lines : List Line,
      (∀ line ∈ lines, line.IsRead) ∧ lines.foldlM Draft.add draft = some last := by
  induction budget generalizing draft with
  | zero => exact gives_pure ⟨[], by simp, rfl⟩
  | succ budget ih =>
      refine Gives.after fun text => .ite (gives_pure ⟨[], by simp, rfl⟩) ?_
      refine gives_readLine.bind fun line hLine => ?_
      split
      · rename_i next hNext
        refine (ih next).mono fun last hLast => ?_
        obtain ⟨lines, hLines, hFold⟩ := hLast
        refine ⟨line :: lines, List.forall_mem_cons.mpr ⟨hLine, hLines⟩, ?_⟩
        rw [List.foldlM_cons, hNext]
        exact hFold
      · exact gives_failure

/-- A line lets the table of a document grow. -/
theorem Draft.grows_add {draft next : Draft} {line : Line} (hLine : line.IsRead)
    (h : draft.add line = some next) : draft.root.Grows next.root := by
  cases line with
  | blank =>
      rw [← Option.some.inj h]
      exact .refl _
  | header path =>
      obtain ⟨root, hRoot, hNext⟩ := Option.bind_eq_some_iff.mp h
      rw [← Option.some.inj hNext]
      exact Entries.grows_applyHeader (fun _ _ _ => Entries.grows_openTable) hRoot
  | row path =>
      obtain ⟨root, hRoot, hNext⟩ := Option.bind_eq_some_iff.mp h
      rw [← Option.some.inj hNext]
      exact Entries.grows_applyHeader (fun _ _ _ => Entries.grows_openRow) hRoot
  | pair path node =>
      obtain ⟨root, hRoot, hNext⟩ := Option.bind_eq_some_iff.mp h
      rw [← Option.some.inj hNext]
      exact Entries.grows_assignBelow hLine.keysDistinct hRoot

/-- Lines one after the other let the table of a document grow. -/
theorem Draft.grows_addAll {draft last : Draft} {lines : List Line}
    (hLines : ∀ line ∈ lines, line.IsRead) (h : lines.foldlM Draft.add draft = some last) :
    draft.root.Grows last.root := by
  induction lines generalizing draft with
  | nil =>
      rw [← Option.some.inj h]
      exact .refl _
  | cons line lines ih =>
      obtain ⟨hLine, hRest⟩ := List.forall_mem_cons.mp hLines
      rw [List.foldlM_cons] at h
      obtain ⟨next, hNext, hLast⟩ := Option.bind_eq_some_iff.mp h
      exact (Draft.grows_add hLine hNext).trans (ih hRest hLast)

/-- What a line gives to a key under a header is there in the end, whatever
lines follow. -/
theorem Draft.holds_addAll {draft last : Draft} {before behind : List Line} {path : List String}
    {node : Node} (hNode : node.IsWritten) (hBehind : ∀ line ∈ behind, line.IsRead)
    (h : (before ++ .pair path node :: behind).foldlM Draft.add draft = some last) :
    ∃ middle, before.foldlM Draft.add draft = some middle ∧
      last.root.Holds (middle.current ++ path) node := by
  rw [List.foldlM_append] at h
  obtain ⟨middle, hMiddle, hRest⟩ := Option.bind_eq_some_iff.mp h
  rw [List.foldlM_cons] at hRest
  obtain ⟨next, hNext, hLast⟩ := Option.bind_eq_some_iff.mp hRest
  obtain ⟨root, hRoot, hSame⟩ := Option.bind_eq_some_iff.mp hNext
  obtain rfl := Option.some.inj hSame
  have hGiven : root.Holds (middle.current ++ path) node := Entries.holds_assignBelow hRoot
  exact ⟨middle, hMiddle, (Draft.grows_addAll hBehind hLast).keeps _ node hNode.isClosed hGiven⟩

end Lines

namespace Entries

variable {text : String} {root : Entries}

/-- A document that can be read is its lines, taken one after the other into a
table of nothing. -/
theorem exists_lines_of_ofText? (h : Entries.ofText? text = some root) :
    ∃ (lines : List Line) (last : Draft), (∀ line ∈ lines, line.IsRead) ∧
      lines.foldlM Draft.add ⟨[], []⟩ = some last ∧ last.root = root := by
  obtain ⟨last, hLast, hRoot⟩ := Option.map_eq_some_iff.mp h
  obtain ⟨⟨draft, rest⟩, hRead, rfl⟩ := Option.map_eq_some_iff.mp hLast
  obtain ⟨lines, hLines, hFold⟩ := gives_readLines _ _ _ _ _ hRead
  exact ⟨lines, draft, hLines, hFold, hRoot⟩

/-- No table of a document that can be read has a key twice. -/
theorem keysDistinct_of_ofText? (h : Entries.ofText? text = some root) : root.KeysDistinct := by
  obtain ⟨lines, last, hLines, hFold, rfl⟩ := exists_lines_of_ofText? h
  exact (Draft.grows_addAll hLines hFold).keysDistinct keysDistinct_nil

end Entries

end DocQuery.Toml
