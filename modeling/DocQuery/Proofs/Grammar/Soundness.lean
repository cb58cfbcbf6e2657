import DocQuery.Proofs.Grammar.Derivation
import DocQuery.Proofs.Grammar.Traces

/-! Readers take nothing but what the grammar allows. `Takes` says all that a
reader does with the tokens of a text: those that it takes are of a form, it
gives a part with no traces but theirs, and where it stops it complains about
one of them, or about the end of the text, for a cause of its own. Each reader
of a part of a statement takes tokens of the form of this part. -/
namespace DocQuery

/-- The stages from a text to its meaning. -/
inductive SyntaxError.Stage where
  | scanning
  | reading
  | meaning
  deriving DecidableEq

/-- The stage that refuses a text for a cause. -/
def SyntaxError.Cause.stage : SyntaxError.Cause → SyntaxError.Stage
  | .loneExclamationMark => .scanning
  | .unexpectedCharacter _ => .scanning
  | .unterminatedString => .scanning
  | .expected _ _ => .reading
  | .subjectNotAllowed _ => .reading
  | .afterStatement _ => .reading
  | .notALiteral _ => .meaning
  | .malformedNumber _ => .meaning
  | .numberOutOfRange _ => .meaning
  | .integerOutOfRange _ => .meaning
  | .notACount _ => .meaning
  | .pageOfNothing => .meaning
  | .whereOnDocument => .meaning
  | .noFields => .meaning
  | .unknownFunction _ => .meaning
  | .unknownFormat _ => .meaning
  | .whereRequired _ => .meaning
  | .identifierType => .meaning
  | .whereOnShow => .meaning

namespace Grammar

open Reader

variable {α β : Type}

/-- How reading may end in front of some lexemes of a text: tokens of a form are
taken and the others are left, or something is missing that the grammar asks
for. -/
inductive Ending (text lexemes : List Lexeme) (form : Form α) :
    Except Complaint (α × List Lexeme) → Prop where
  | ok {part : α} {taken : List Token} {rest : List Lexeme} (hRest : rest ⊆ text)
      (hTaken : lexemes.map Lexeme.token = taken ++ rest.map Lexeme.token)
      (hForm : form taken part) : Ending text lexemes form (.ok (part, rest))
  | error {complaint : Complaint} (hRest : complaint.rest ⊆ text)
      (hStage : complaint.cause.stage = .reading) : Ending text lexemes form (.error complaint)

/-- Wherever a reader is in a text, it ends as it may. -/
def Takes (text : List Lexeme) (reader : Reader α) (form : Form α) : Prop :=
  ∀ lexemes, lexemes ⊆ text → Ending text lexemes form (reader lexemes)

/-- The place of the next token. -/
def spot : List Lexeme → Position
  | [] => .start
  | lexeme :: _ => lexeme.position

/-- Where this token is next, at this place, a reader ends as it may. -/
def TakesAt (text : List Lexeme) (position : Position) (token : Token) (reader : Reader α)
    (form : Form α) : Prop :=
  ∀ lexemes, lexemes ⊆ text → spot lexemes = position → head lexemes = token →
    Ending text lexemes form (reader lexemes)

section Rules

variable {text : List Lexeme} {reader : Reader α} {form : Form α} {goal : Form β}
  {position : Position} {token : Token}

/-- What is taken behind other tokens is taken together with them. -/
theorem Ending.behind {lexemes rest : List Lexeme} {taken : List Token}
    {result : Except Complaint (α × List Lexeme)}
    (hTaken : lexemes.map Lexeme.token = taken ++ rest.map Lexeme.token)
    (h : Ending text rest (fun more part => form (taken ++ more) part) result) :
    Ending text lexemes form result := by
  cases h with
  | ok hRest hMore hForm => exact .ok hRest (by rw [hTaken, hMore, List.append_assoc]) hForm
  | error hRest hStage => exact .error hRest hStage

theorem Takes.at (h : Takes text reader form) : TakesAt text position token reader form :=
  fun lexemes hLexemes _ _ => h lexemes hLexemes

theorem takes_pure {part : α} (h : form [] part) : Takes text (pure part) form :=
  fun _ hLexemes => .ok hLexemes rfl h

/-- A reader may stop for a cause of its own. -/
theorem takes_stop {cause : SyntaxError.Cause} (h : cause.stage = .reading) :
    Takes text (stop cause) form :=
  fun _ hLexemes => .error hLexemes h

/-- Readers one after the other: the tokens of the second stand behind those of
the first. -/
theorem Takes.bind {next : α → Reader β} (h : Takes text reader form)
    (hNext : ∀ tokens part, form tokens part →
      Takes text (next part) fun more result => goal (tokens ++ more) result) :
    Takes text (reader >>= next) goal := by
  intro lexemes hLexemes
  have hFirst := h lexemes hLexemes
  change Ending text lexemes goal (reader lexemes >>= fun found => next found.1 found.2)
  generalize reader lexemes = result at hFirst ⊢
  cases hFirst with
  | ok hRest hTaken hForm => exact .behind hTaken (hNext _ _ hForm _ hRest)
  | error hRest hStage => exact .error hRest hStage

/-- A reader whose result is only put into its place. -/
theorem Takes.bind_pure {f : α → β} (h : Takes text reader form)
    (hGoal : ∀ tokens part, form tokens part → goal tokens (f part)) :
    Takes text (reader >>= fun part => pure (f part)) goal := by
  refine h.bind fun tokens part hForm => takes_pure ?_
  rw [List.append_nil]
  exact hGoal tokens part hForm

theorem Takes.map {f : α → β} (h : Takes text reader form)
    (hGoal : ∀ tokens part, form tokens part → goal tokens (f part)) :
    Takes text (f <$> reader) goal := by
  rw [← bind_pure_comp]
  exact h.bind_pure hGoal

/-- A look at all tokens takes none. -/
theorem takes_get {next : List Lexeme → Reader β}
    (h : ∀ lexemes, Takes text (next lexemes) goal) : Takes text (get >>= next) goal :=
  fun lexemes hLexemes => h lexemes lexemes hLexemes

/-- What follows a look at the next token may depend on this token. -/
theorem takes_peek {next : Token → Reader β}
    (h : ∀ position token, TakesAt text position token (next token) goal) :
    Takes text (peek >>= next) goal :=
  fun lexemes hLexemes => h (spot lexemes) (head lexemes) lexemes hLexemes rfl rfl

/-- A place is that of the next token. -/
theorem takes_look {next : Position → Token → Reader β}
    (h : ∀ position token, TakesAt text position token (next position token) goal) :
    Takes text (place >>= fun position => peek >>= next position) goal := by
  intro lexemes hLexemes
  cases lexemes with
  | nil => exact h _ _ [] hLexemes rfl rfl
  | cons lexeme more => exact h _ _ (lexeme :: more) hLexemes rfl rfl

/-- A reader may complain about the next token instead of taking it. -/
theorem takes_missing (expectation : Expectation) : Takes text (missing expectation) form :=
  takes_peek fun _ _ => (takes_stop rfl).at

theorem takes_missing_bind (expectation : Expectation) (next : α → Reader β) :
    Takes text (missing expectation >>= next) goal := by
  have hMissing : Takes text (missing expectation : Reader α) fun _ _ => False :=
    takes_missing expectation
  exact hMissing.bind fun _ _ => False.elim

/-- The next token is taken, unless the text has ended. Its lexeme is one of the
text. -/
theorem TakesAt.skip {next : Unit → Reader β} (hToken : token ≠ .endOfInput)
    (h : ∀ lexeme ∈ text, lexeme.position = position → lexeme.token = token →
      Takes text (next ()) fun tokens result => goal (token :: tokens) result) :
    TakesAt text position token (skip >>= next) goal := by
  intro lexemes hLexemes hPlace hHead
  cases lexemes with
  | nil => exact absurd hHead.symm hToken
  | cons lexeme more =>
      obtain ⟨hMember, hMore⟩ := List.cons_subset.mp hLexemes
      have hTaken : (lexeme :: more).map Lexeme.token = [token] ++ more.map Lexeme.token :=
        congrArg (· :: more.map Lexeme.token) hHead
      exact .behind hTaken (h lexeme hMember hPlace hHead more hMore)

/-- A token is taken together with its place, or it is not the next one. -/
theorem takes_place_accept {next : Position → Bool → Reader β} (hToken : token ≠ .endOfInput)
    (hTaken : ∀ lexeme ∈ text,
      Takes text (next lexeme.position true) fun tokens result => goal (token :: tokens) result)
    (hLeft : ∀ position, Takes text (next position false) goal) :
    Takes text (place >>= fun position => accept token >>= next position) goal := by
  simp only [accept, bind_assoc]
  refine takes_look fun position found => ?_
  split
  · rename_i hFound
    subst hFound
    rw [bind_assoc]
    refine .skip hToken fun lexeme hMember hPlace _ => ?_
    exact hPlace ▸ hTaken lexeme hMember
  · exact (hLeft position).at

/-- What follows goes on behind a token that was accepted, or where none was. -/
theorem takes_accept {next : Bool → Reader β} (hToken : token ≠ .endOfInput)
    (hTaken : Takes text (next true) fun tokens result => goal (token :: tokens) result)
    (hLeft : Takes text (next false) goal) : Takes text (accept token >>= next) goal := by
  simp only [accept, bind_assoc]
  refine takes_peek fun position found => ?_
  split
  · rename_i hFound
    subst hFound
    rw [bind_assoc]
    exact .skip hToken fun _ _ _ _ => hTaken
  · exact hLeft.at

/-- What follows goes on behind the token that was asked for, at a place of the
text. -/
theorem takes_expect {next : Position → Reader β} (hToken : token ≠ .endOfInput)
    (h : ∀ lexeme ∈ text, Takes text (next lexeme.position) fun tokens result =>
      goal (token :: tokens) result) :
    Takes text (expect token >>= next) goal := by
  simp only [expect, bind_assoc]
  exact takes_place_accept hToken h fun _ => takes_missing_bind _ _

variable {f : α → β} {spells : Form β} {traces : α → List Trace}

/-- A part behind a keyword that has to be there. -/
theorem takes_behind (k : Keyword)
    (h : Takes text reader fun tokens part => spells tokens (f part) ∧ Leave text (traces part)) :
    Takes text (do let _ ← keyword k; reader) fun tokens part =>
      Behind k spells tokens (f part) ∧ Leave text (traces part) := by
  refine takes_expect (by simp) fun _ _ lexemes hLexemes => ?_
  have hRead := h lexemes hLexemes
  generalize reader lexemes = result at hRead ⊢
  cases hRead with
  | ok hRest hTaken hForm => exact .ok hRest hTaken ⟨.intro hForm.1, hForm.2⟩
  | error hRest hStage => exact .error hRest hStage

/-- An optional part takes its keyword and what its reader takes, or nothing. -/
theorem takes_optional (k : Keyword)
    (h : Takes text reader fun tokens part => spells tokens (f part) ∧ Leave text (traces part)) :
    Takes text (optional k reader) fun tokens found =>
      Optionally (Behind k spells) tokens (found.map f) ∧
        Leave text (found.toList.flatMap traces) := by
  refine takes_accept (by simp) (h.bind_pure fun _ _ hForm => ?_) (takes_pure ⟨.absent, leave_nil⟩)
  exact ⟨.present (.intro hForm.1), hForm.2.append leave_nil⟩

theorem Separated.cons {separator : Token} {tokens more : List Token} {part : β} {parts : List β}
    (h : spells tokens part) (hMore : Separated separator spells more parts) :
    Separated separator spells (tokens ++ separator :: more) (part :: parts) := by
  cases hMore with
  | @intro pieces _ hParts hNonempty =>
      cases hParts with
      | nil => exact absurd rfl hNonempty
      | @cons piece _ pieces _ hFirst hRest =>
          have hTokens : separatedTokens separator (tokens :: piece :: pieces) =
              tokens ++ separator :: separatedTokens separator (piece :: pieces) := by
            simp [separatedTokens, List.intercalate_cons_cons]
          exact hTokens ▸ .intro (.cons h (.cons hFirst hRest)) (List.cons_ne_nil _ _)

theorem Separated.single {separator : Token} {tokens : List Token} {part : β}
    (h : spells tokens part) : Separated separator spells tokens [part] := by
  have hTokens : separatedTokens separator [tokens] = tokens := by simp [separatedTokens]
  exact hTokens ▸ .intro (.cons h .nil) (List.cons_ne_nil _ _)

/-- Within a budget, parts take their tokens and the separators between them.
The induction is on the budget. -/
theorem takes_separatedWithin {separator : Token} (hSeparator : separator ≠ .endOfInput)
    (h : Takes text reader fun tokens part => spells tokens (f part) ∧ Leave text (traces part))
    (budget : Nat) :
    Takes text (separatedWithin separator reader budget) fun tokens parts =>
      Separated separator spells tokens (parts.map f) ∧ Leave text (parts.flatMap traces) := by
  induction budget with
  | zero => exact h.bind_pure fun _ _ hForm => ⟨.single hForm.1, hForm.2.append leave_nil⟩
  | succ budget ih =>
      refine h.bind fun tokens part hForm => takes_accept hSeparator ?_ (takes_pure ?_)
      · exact ih.bind_pure fun _ _ hMore => ⟨.cons hForm.1 hMore.1, hForm.2.append hMore.2⟩
      · rw [List.append_nil]
        exact ⟨.single hForm.1, hForm.2.append leave_nil⟩

/-- Parts with separators between them take what each of them takes, and the
separators. -/
theorem takes_separated {separator : Token} (hSeparator : separator ≠ .endOfInput)
    (h : Takes text reader fun tokens part => spells tokens (f part) ∧ Leave text (traces part)) :
    Takes text (separated separator reader) fun tokens parts =>
      Separated separator spells tokens (parts.map f) ∧ Leave text (parts.flatMap traces) :=
  takes_get fun _ => takes_separatedWithin hSeparator h _

end Rules

section Parts

variable {text : List Lexeme}

/-- A name is taken from one token, at the place of this token. -/
theorem takes_name (expectation : Expectation) :
    Takes text (name expectation) fun tokens name =>
      SpellsName tokens name.unplaced ∧ Leave text name.traces := by
  refine takes_look fun position token => ?_
  split
  · exact .skip (by simp) fun _ hMember hPlace _ =>
      takes_pure ⟨.identifier _, leave_place hMember hPlace⟩
  · exact .skip (by simp) fun _ hMember hPlace _ =>
      takes_pure ⟨.string _, leave_place hMember hPlace⟩
  · exact (takes_missing _).at

/-- A value that is a single token which is no number. -/
theorem takes_word {token : Token} {position : Position} {node : ValueNode}
    (hToken : token ≠ .endOfInput) (hSpells : SpellsValue [token] node.unplaced)
    (hTraces : node.traces = [⟨position, none⟩]) :
    TakesAt text position token (do skip; return node) fun tokens node =>
      SpellsValue tokens node.unplaced ∧ Leave text node.traces :=
  .skip hToken fun _ hMember hPlace _ =>
    takes_pure ⟨hSpells, hTraces ▸ leave_place hMember hPlace⟩

/-- A value takes what the grammar allows, however deep its arrays are. -/
theorem takes_valueWithin (depth : Nat) :
    Takes text (readValueWithin depth) fun tokens node =>
      SpellsValue tokens node.unplaced ∧ Leave text node.traces := by
  induction depth with
  | zero => exact takes_missing _
  | succ depth ih =>
      refine takes_look fun position token => ?_
      split
      · exact takes_word (by simp) (.string _) rfl
      · exact .skip (by simp) fun lexeme hMember hPlace hToken =>
          takes_pure ⟨.number _, leave_digits hMember hPlace hMember hToken (.inl rfl)⟩
      · refine .skip (by simp) fun minus hMember hPlace _ => takes_peek fun behind next => ?_
        split
        · exact .skip (by simp) fun number hNumber _ hToken =>
            takes_pure ⟨.negative _, leave_digits hMember hPlace hNumber hToken (.inr rfl)⟩
        · exact (takes_missing _).at
      · exact takes_word (by simp) .true rfl
      · exact takes_word (by simp) .false rfl
      · exact takes_word (by simp) .null rfl
      · exact takes_word (by simp) (.name _) rfl
      · refine .skip (by simp) fun bracket hMember hPlace _ => ?_
        refine takes_accept (by simp) (takes_pure ⟨.array .nil, leave_place hMember hPlace⟩) ?_
        refine (takes_separated (by simp) ih).bind fun tokens items hItems => ?_
        refine takes_expect (by simp) fun _ _ => takes_pure ⟨?_, ?_⟩
        · cases hItems.1 with
          | intro hParts _ =>
              have hArray := SpellsValue.array hParts
              rw [← ValueNode.unplacedItems_eq] at hArray
              exact hArray
        · rw [ValueNode.traces, ValueNode.tracesOfItems_eq]
          exact hItems.2.cons hMember hPlace
      · exact (takes_missing _).at

theorem takes_value : Takes text readValue fun tokens node =>
    SpellsValue tokens node.unplaced ∧ Leave text node.traces :=
  takes_get fun _ => takes_valueWithin _

theorem takes_marker : Takes text readMarker SpellsMarker := by
  rw [readMarker, ← bind_pure (accept _)]
  exact takes_accept (by simp) (takes_pure .present) (takes_pure .absent)

theorem operatorOfToken?_eq_some {token : Token} {operator : Operator}
    (h : operatorOfToken? token = some operator) : token = operator.token := by
  revert h
  fun_cases operatorOfToken? token <;> rintro ⟨⟩ <;> rfl

theorem takes_operator : Takes text readOperator SpellsOperator := by
  refine takes_peek fun position token => ?_
  split
  · rename_i operator hOperator
    have hToken : token ≠ .endOfInput := by
      rw [operatorOfToken?_eq_some hOperator]
      cases operator <;> simp [Operator.token]
    refine .skip hToken fun _ _ _ _ => takes_pure ?_
    exact operatorOfToken?_eq_some hOperator ▸ .intro operator
  · exact (takes_missing _).at

/-- A condition takes a property, an operator and a value, and its traces are
theirs. -/
theorem takes_predicate : Takes text readPredicate fun tokens node =>
    SpellsPredicate tokens node.unplaced ∧ Leave text node.traces := by
  refine (takes_name .property).bind fun _ property hProperty => ?_
  refine takes_marker.bind fun _ marked hMarker => ?_
  refine takes_operator.bind fun _ operator hOperator => ?_
  exact takes_value.bind_pure fun _ value hValue =>
    ⟨.intro hProperty.1 hMarker hOperator hValue.1, hProperty.2.append hValue.2⟩

theorem takes_where : Takes text readWhere fun tokens found =>
    SpellsWhere tokens (found.map (List.map PredicateNode.unplaced)) ∧
      Leave text (tracesOfWhere found) :=
  takes_optional .where (takes_separated (by simp) takes_predicate)

theorem directionOfToken?_eq_some {token : Token} {direction : Direction}
    (h : directionOfToken? token = some direction) : token = .keyword direction.keyword := by
  revert h
  fun_cases directionOfToken? token <;> rintro ⟨⟩ <;> rfl

theorem takes_direction : Takes text readDirection (Optionally SpellsDirection) := by
  refine takes_peek fun position token => ?_
  split
  · rename_i direction hDirection
    obtain rfl := directionOfToken?_eq_some hDirection
    exact .skip (by simp) fun _ _ _ _ => takes_pure (.present (.intro direction))
  · exact (takes_pure .absent).at

theorem takes_sorter : Takes text readSorter fun tokens node =>
    SpellsSorter tokens node.unplaced ∧ Leave text node.traces := by
  refine (takes_name .property).bind fun _ name hProperty => ?_
  refine takes_marker.bind fun _ marked hMarker => ?_
  exact takes_direction.bind_pure fun _ direction hDirection =>
    ⟨.intro hProperty.1 hMarker hDirection, hProperty.2⟩

theorem takes_setter : Takes text readSetter fun tokens node =>
    SpellsSetter tokens node.unplaced ∧ Leave text node.traces := by
  refine (takes_name .property).bind fun _ name hProperty => ?_
  refine takes_expect (by simp) fun _ _ => ?_
  exact takes_value.bind_pure fun _ node hValue =>
    ⟨.intro hProperty.1 hValue.1, hProperty.2.append hValue.2⟩

/-- Setters take at least one setter, and commas between them. -/
theorem takes_setters : Takes text readSetters fun tokens nodes =>
    SpellsSetters tokens (nodes.map SetterNode.unplaced) ∧
      Leave text (nodes.flatMap SetterNode.traces) :=
  takes_behind .set (takes_separated (by simp) takes_setter)

theorem subjectKeywordOfToken?_eq_some {token : Token} {word : SubjectKeyword}
    (h : subjectKeywordOfToken? token = some word) : token = .keyword word.keyword := by
  revert h
  fun_cases subjectKeywordOfToken? token <;> rintro ⟨⟩ <;> rfl

/-- A subject takes one of the keywords that are allowed, and a name behind
it. -/
theorem takes_subject (allowed : List SubjectKeyword) : Takes text (readSubject allowed)
    fun tokens node => SpellsSubject allowed tokens node.unplaced ∧ Leave text node.traces := by
  refine takes_peek fun position token => ?_
  split
  · exact (takes_missing _).at
  · rename_i word hWord
    split
    · rename_i hAllowed
      obtain rfl := subjectKeywordOfToken?_eq_some hWord
      refine .skip (by simp) fun _ _ _ _ => ?_
      exact (takes_name .subjectName).bind_pure fun _ name hName =>
        ⟨.intro hAllowed hName.1, hName.2⟩
    · exact (takes_stop rfl).at

theorem takes_fields : Takes text readFields fun tokens node =>
    SpellsFields tokens node.unplaced ∧ Leave text node.traces := by
  refine takes_accept (by simp) (takes_pure ⟨.star, leave_nil⟩) (takes_peek fun _ token => ?_)
  split
  · exact (takes_pure ⟨.none, leave_nil⟩).at
  · refine Takes.at ?_
    exact (takes_separated (by simp) (takes_name .property)).bind_pure
      fun _ names hNames => ⟨.list hNames.1, hNames.2⟩

theorem takes_function : Takes text readFunction fun tokens name =>
    SpellsFunction tokens name.unplaced ∧ Leave text name.traces := by
  refine takes_expect (by simp) fun _ _ => takes_look fun position token => ?_
  split
  · exact .skip (by simp) fun _ hMember hPlace _ => takes_expect (by simp) fun _ _ =>
      takes_pure ⟨.intro _, leave_place hMember hPlace⟩
  · exact (takes_missing _).at

theorem takes_format : Takes text readFormat fun tokens found =>
    Optionally SpellsFormat tokens (found.map Name.unplaced) ∧
      Leave text (found.toList.flatMap Name.traces) := by
  refine takes_look fun position token => ?_
  split
  · split
    · exact (takes_pure ⟨.absent, leave_nil⟩).at
    · rename_i hWord
      exact .skip (by simp) fun _ hMember hPlace _ =>
        takes_pure ⟨.present (.intro (eq_false_of_ne_true hWord)), leave_place hMember hPlace⟩
  · exact (takes_pure ⟨.absent, leave_nil⟩).at

theorem takes_target : Takes text readTarget (Optionally SpellsTarget) := by
  refine takes_peek fun position token => ?_
  split
  · split
    · rename_i hWord
      exact .skip (by simp) fun _ _ _ _ => takes_pure (.present (.clipboard hWord))
    · exact (takes_pure .absent).at
  · exact .skip (by simp) fun _ _ _ _ => takes_pure (.present (.path _))
  · exact (takes_pure .absent).at

/-- An output takes its keyword, a format if one follows and a target if one
follows. -/
theorem takes_output : Takes text readOutput fun tokens found =>
    Optionally (Behind .output SpellsOutput) tokens (found.map OutputNode.unplaced) ∧
      Leave text (found.toList.flatMap OutputNode.traces) := by
  refine takes_place_accept (by simp) (fun lexeme hMember => ?_) fun _ =>
    takes_pure ⟨.absent, leave_nil⟩
  refine takes_format.bind fun formatTokens format hFormat => ?_
  refine takes_target.bind fun targetTokens target hTarget => ?_
  split
  · exact takes_missing _
  · rename_i hNamed
    have hSome : format.map Name.unplaced ≠ none ∨ target ≠ none := by
      by_contra hNone
      simp_all
    refine takes_pure ?_
    rw [List.append_nil]
    exact ⟨.present (.intro (.intro hFormat.1 hTarget hSome)),
      (hFormat.2.cons hMember rfl).append leave_nil⟩

end Parts

section Statements

variable {text : List Lexeme}

/-- A select takes its parts in the order of the grammar, and none of them
twice. -/
theorem takes_select : Takes text readSelect fun tokens node =>
    SpellsSelect tokens node.unplaced ∧ Leave text node.traces := by
  refine takes_expect (by simp) fun start hStart => ?_
  refine takes_fields.bind fun _ fields hFields => ?_
  refine (takes_subject _).bind fun _ subject hSubject => ?_
  refine takes_where.bind fun _ predicates hWhere => ?_
  refine (takes_optional .order (takes_behind .by
    (takes_separated (by simp) takes_sorter))).bind fun _ sorters hOrder => ?_
  refine (takes_optional .limit takes_value).bind fun _ limit hLimit => ?_
  refine (takes_optional .page takes_value).bind fun _ page hPage => ?_
  refine (takes_optional .group (takes_behind .by
    (takes_name .property))).bind fun _ group hGroup => ?_
  refine (takes_optional .function takes_function).bind fun _ function hFunction => ?_
  refine takes_output.bind_pure fun _ output hOutput => ⟨?_, ?_⟩
  · exact .intro hFields.1 hSubject.1 hWhere.1 hOrder.1 hLimit.1 hPage.1 hGroup.1 hFunction.1
      hOutput.1
  · have hClauses := (hFields.2.append hSubject.2).append hWhere.2
    have hCounts := ((hClauses.append hOrder.2).append hLimit.2).append hPage.2
    exact (((hCounts.append hGroup.2).append hFunction.2).append hOutput.2).cons hStart rfl

theorem takes_update : Takes text readUpdate fun tokens node =>
    SpellsUpdate tokens node.unplaced ∧ Leave text node.traces := by
  refine takes_expect (by simp) fun start hStart => ?_
  refine (takes_subject _).bind fun _ subject hSubject => ?_
  refine takes_setters.bind fun _ setters hSetters => ?_
  exact takes_where.bind_pure fun _ predicates hWhere =>
    ⟨.intro hSubject.1 hSetters.1 hWhere.1,
      ((hSubject.2.append hSetters.2).append hWhere.2).cons hStart rfl⟩

theorem takes_delete : Takes text readDelete fun tokens node =>
    SpellsDelete tokens node.unplaced ∧ Leave text node.traces := by
  refine takes_expect (by simp) fun start hStart => ?_
  refine (takes_subject _).bind fun _ subject hSubject => ?_
  exact takes_where.bind_pure fun _ predicates hWhere =>
    ⟨.intro hSubject.1 hWhere.1, (hSubject.2.append hWhere.2).cons hStart rfl⟩

theorem takes_insert : Takes text readInsert fun tokens node =>
    SpellsInsert tokens node.unplaced ∧ Leave text node.traces := by
  refine takes_expect (by simp) fun start hStart => takes_expect (by simp) fun _ _ => ?_
  refine (takes_name .collectionName).bind fun _ collection hCollection => ?_
  refine takes_setters.bind fun _ setters hSetters => ?_
  exact (takes_optional .identified (takes_behind .by takes_value)).bind_pure
    fun _ identifier hIdentifier => ⟨.intro hCollection.1 hSetters.1 hIdentifier.1,
      ((hCollection.2.append hSetters.2).append hIdentifier.2).cons hStart rfl⟩

theorem takes_show : Takes text readShow fun tokens node =>
    SpellsShow tokens node.unplaced ∧ Leave text node.traces := by
  refine takes_expect (by simp) fun start hStart => takes_peek fun _ token => ?_
  split
  · split
    · rename_i word hWord
      have hRest (tokens : List Token) (subject : Option SubjectNode)
          (hSubject : Optionally (SpellsSubject [.from, .within, .at]) tokens
            (subject.map SubjectNode.unplaced) ∧
              Leave text (subject.toList.flatMap SubjectNode.traces)) :
          Takes text (do
            let predicates ← readWhere
            return { subject, predicates, position := start.position : ShowNode })
            fun more node => SpellsShow (.keyword .show :: .identifier word :: (tokens ++ more))
              node.unplaced ∧ Leave text node.traces :=
        takes_where.bind_pure fun _ predicates hWhere =>
          ⟨.intro hWord hSubject.1 hWhere.1, (hSubject.2.append hWhere.2).cons hStart rfl⟩
      refine .skip (by simp) fun _ _ _ _ => takes_peek fun _ next => Takes.at ?_
      split
      · refine ((takes_subject _).map fun _ _ hSubject => ?_).bind hRest
        exact ⟨.present hSubject.1, hSubject.2.append leave_nil⟩
      · exact (takes_pure ⟨.absent, leave_nil⟩).bind hRest
    · exact (takes_missing_bind _ _).at
  · exact (takes_missing_bind _ _).at

/-- A statement takes what the reader takes that its first keyword selects. -/
theorem takes_statement : Takes text readStatement fun tokens statement =>
    SpellsStatement tokens statement.unplaced ∧ Leave text statement.traces := by
  refine takes_peek fun _ token => ?_
  split
  · exact (takes_select.bind_pure fun _ _ h => ⟨.select h.1, h.2⟩).at
  · exact (takes_update.bind_pure fun _ _ h => ⟨.update h.1, h.2⟩).at
  · exact (takes_delete.bind_pure fun _ _ h => ⟨.delete h.1, h.2⟩).at
  · exact (takes_insert.bind_pure fun _ _ h => ⟨.insert h.1, h.2⟩).at
  · exact (takes_show.bind_pure fun _ _ h => ⟨.show h.1, h.2⟩).at
  · exact (takes_missing _).at

/-- Where a reader is content, the text has ended. -/
def Ends (reader : Reader α) : Prop :=
  ∀ lexemes part rest, reader lexemes = .ok (part, rest) → head rest = .endOfInput

/-- Where the last of two readers ends at the end of the text, both together
do. -/
theorem Ends.bind {reader : Reader α} {next : α → Reader β} (h : ∀ part, Ends (next part)) :
    Ends (reader >>= next) := by
  intro lexemes result rest hRead
  change (reader lexemes >>= fun found => next found.1 found.2) = _ at hRead
  cases hFirst : reader lexemes with
  | error complaint =>
      rw [hFirst] at hRead
      cases hRead
  | ok found =>
      rw [hFirst] at hRead
      exact h found.1 found.2 result rest hRead

theorem ends_peek {next : Token → Reader α}
    (h : ∀ token lexemes part rest, head lexemes = token →
      next token lexemes = .ok (part, rest) → head rest = .endOfInput) : Ends (peek >>= next) :=
  fun lexemes part rest hRead => h _ lexemes part rest rfl hRead

/-- The last step of a whole statement: nothing is behind it. -/
def closing (statement : Statement) : Reader Statement := do
  match ← peek with
  | .endOfInput => return statement
  | found => stop (.afterStatement found)

/-- Behind a statement there is nothing but a semicolon and the end of the
text. -/
theorem ends_closing (statement : Statement) : Ends (closing statement) := by
  refine ends_peek fun token lexemes result rest hHead hRead => ?_
  cases token with
  | endOfInput =>
      obtain ⟨-, rfl⟩ := Prod.mk.inj (Except.ok.inj hRead)
      exact hHead
  | keyword _ | mark _ | identifier _ | number _ | string _ => cases hRead

theorem takes_closing {form : Form Statement} {statement : Statement} (h : form [] statement) :
    Takes text (closing statement) form := by
  refine takes_peek fun _ token => ?_
  split
  · exact (takes_pure h).at
  · exact (takes_stop rfl).at

theorem ends_whole : Ends readWhole :=
  Ends.bind fun statement => Ends.bind fun _ => ends_closing statement

/-- A statement behind which there may be a semicolon. -/
theorem takes_whole : Takes text readWhole fun tokens statement =>
    SpellsWhole (tokens ++ [.endOfInput]) statement.unplaced ∧ Leave text statement.traces := by
  refine takes_statement.bind fun tokens statement hStatement => ?_
  refine takes_accept (by simp) (takes_closing ⟨?_, hStatement.2⟩)
    (takes_closing ⟨?_, hStatement.2⟩)
  · simpa using SpellsWhole.closed hStatement.1
  · simpa using SpellsWhole.plain hStatement.1

end Statements

/-- No token of a text is the end of the text. -/
theorem readToken_ne_endOfInput {first : Char} {text : List Char} {reading : Reading}
    (h : readToken first text = .ok reading) : reading.token ≠ .endOfInput := by
  have hMark {marked : List Char} {found : Reading} (hFound : readMark marked = some found) :
      found.token ≠ .endOfInput := by
    revert hFound
    fun_cases readMark marked <;> rintro ⟨⟩ <;> simp
  rw [readToken] at h
  split at h
  · obtain rfl := Except.ok.inj h
    simp [readNumber]
  split at h
  · split at h
    · rename_i found hString
      obtain rfl := Except.ok.inj h
      obtain ⟨_, _, rfl⟩ := Option.map_eq_some_iff.mp hString
      simp
    · cases h
  split at h
  · obtain rfl := Except.ok.inj h
    simp only [readName]
    split <;> simp
  split at h
  · rename_i found hFound
    obtain rfl := Except.ok.inj h
    exact hMark hFound
  · split at h <;> cases h

/-- A lexeme was read at the front of some text. -/
def Lexeme.WasRead (lexeme : Lexeme) : Prop :=
  ∃ first text reading, readToken first text = .ok reading ∧ lexeme.token = reading.token ∧
    lexeme.text = String.ofList reading.taken

theorem Lexeme.WasRead.token_ne {lexeme : Lexeme} (h : lexeme.WasRead) :
    lexeme.token ≠ .endOfInput := by
  obtain ⟨first, text, reading, hReading, hToken, _⟩ := h
  rw [hToken]
  exact readToken_ne_endOfInput hReading

/-- One step of the scanner: behind the layout either the text ends, or a token
is read at its front and the scanner goes on behind it. -/
theorem scanWithin_succ_eq_ok {budget : Nat} {place : Position} {text : List Char} {tokens : Tokens}
    (h : scanWithin (budget + 1) place text = .ok tokens) :
    ((takeLayout false text).2 = [] ∧ tokens = ⟨[], place.after (takeLayout false text).1⟩) ∨
    ∃ first rest reading more, (takeLayout false text).2 = first :: rest ∧
      readToken first rest = .ok reading ∧
      scanWithin budget ((place.after (takeLayout false text).1).after reading.taken)
        reading.rest = .ok more ∧
      tokens = ⟨⟨reading.token, place.after (takeLayout false text).1,
        String.ofList reading.taken⟩ :: more.lexemes, more.finish⟩ := by
  simp only [scanWithin] at h
  split at h
  · rename_i hEnd
    exact .inl ⟨hEnd, (Except.ok.inj h).symm⟩
  · rename_i first rest hRest
    split at h
    · cases h
    · rename_i reading hReading
      cases hMore : scanWithin budget ((place.after (takeLayout false text).1).after
          reading.taken) reading.rest with
      | error fault =>
          rw [hMore] at h
          cases h
      | ok more =>
          rw [hMore] at h
          exact .inr ⟨first, rest, reading, more, hRest, hReading, hMore, (Except.ok.inj h).symm⟩

/-- Every token of a text was read from the characters that it covers. -/
theorem wasRead_of_scanWithin {budget : Nat} {place : Position} {text : List Char} {tokens : Tokens}
    (h : scanWithin budget place text = .ok tokens) :
    ∀ lexeme ∈ tokens.lexemes, lexeme.WasRead := by
  induction budget generalizing place text tokens with
  | zero =>
      obtain rfl := Except.ok.inj h
      exact List.forall_mem_nil _
  | succ budget ih =>
      obtain ⟨_, rfl⟩ | ⟨first, rest, reading, more, _, hReading, hMore, rfl⟩ :=
        scanWithin_succ_eq_ok h
      · exact List.forall_mem_nil _
      · exact List.forall_mem_cons.mpr ⟨⟨first, rest, reading, hReading, rfl, rfl⟩, ih hMore⟩

section Reading

variable {tokens : Tokens} {statement : Statement}

/-- The statement of some tokens was read from all of them, and has no traces
but theirs. -/
theorem ending_of_ofTokens (h : Statement.ofTokens tokens = .ok statement) :
    ∃ taken rest, head rest = .endOfInput ∧
      tokens.lexemes.map Lexeme.token = taken ++ rest.map Lexeme.token ∧
      SpellsWhole (taken ++ [.endOfInput]) statement.unplaced ∧
      Leave tokens.lexemes statement.traces := by
  have hTakes : Ending tokens.lexemes tokens.lexemes _ (readWhole.run tokens.lexemes) :=
    takes_whole tokens.lexemes (List.Subset.refl _)
  rw [Statement.ofTokens] at h
  split at h
  · rename_i found rest hRead
    obtain rfl := Except.ok.inj h
    rw [hRead] at hTakes
    cases hTakes with
    | ok _ hTaken hForm => exact ⟨_, rest, ends_whole _ _ _ hRead, hTaken, hForm⟩
  · cases h

/-- A statement has no traces but those that its tokens leave. -/
theorem leave_of_ofTokens (h : Statement.ofTokens tokens = .ok statement) :
    Leave tokens.lexemes statement.traces := by
  obtain ⟨_, _, _, _, _, hTraces⟩ := ending_of_ofTokens h
  exact hTraces

/-- Tokens that spell no statement are refused by a complaint about one of them
or about the end. -/
theorem exists_complaint_of_ofTokens {error : SyntaxError}
    (h : Statement.ofTokens tokens = .error error) :
    ∃ complaint : Complaint, error = complaint.toError tokens.finish ∧
      complaint.rest ⊆ tokens.lexemes ∧ complaint.cause.stage = .reading := by
  have hTakes : Ending tokens.lexemes tokens.lexemes _ (readWhole.run tokens.lexemes) :=
    takes_whole tokens.lexemes (List.Subset.refl _)
  rw [Statement.ofTokens] at h
  split at h
  · cases h
  · rename_i complaint hRead
    rw [hRead] at hTakes
    cases hTakes with
    | error hRest hStage => exact ⟨complaint, (Except.error.inj h).symm, hRest, hStage⟩

/-- The tokens of a statement that is read spell this statement. -/
theorem spellsWhole_of_ofTokens {text : String} (h : scan text = .ok tokens)
    (hStatement : Statement.ofTokens tokens = .ok statement) :
    SpellsWhole (tokens.toList.map Lexeme.token) statement.unplaced := by
  obtain ⟨taken, rest, hEnd, hTaken, hSpells, _⟩ := ending_of_ofTokens hStatement
  cases rest with
  | nil =>
      rw [Tokens.toList, List.map_append, hTaken, List.map_nil, List.append_nil]
      exact hSpells
  | cons lexeme rest =>
      have hMember : Token.endOfInput ∈ tokens.lexemes.map Lexeme.token := by
        rw [hTaken, List.map_cons, show lexeme.token = .endOfInput from hEnd]
        simp
      obtain ⟨last, hLast, hToken⟩ := List.mem_map.mp hMember
      exact absurd hToken (wasRead_of_scanWithin h last hLast).token_ne

end Reading

section Readable

variable {tokens : List Token}

theorem SpellsSubject.keyword_mem {allowed : List SubjectKeyword} {node : SubjectNode}
    (h : SpellsSubject allowed tokens node) : node.keyword ∈ allowed := by
  cases h with
  | intro hWord _ => exact hWord

/-- There is at least one assignment behind `set`. -/
theorem ne_nil_of_spellsSetters {nodes : List SetterNode}
    (h : SpellsSetters tokens (nodes.map SetterNode.unplaced)) : nodes ≠ [] := by
  rintro rfl
  cases h with
  | intro hSeparated =>
      cases hSeparated with
      | intro _ hNonempty => exact hNonempty rfl

/-- An output that is spelled has a format or a target. -/
theorem readable_of_spellsOutput {node : OutputNode} (h : SpellsOutput tokens node.unplaced) :
    node.Readable := by
  obtain ⟨format, target, position⟩ := node
  cases h with
  | intro _ _ hSome => simpa [OutputNode.Readable, Option.isSome_iff_ne_none] using hSome

/-- What the grammar asks for beyond the shape of a statement holds of every
statement spelled. -/
theorem readable_of_spellsStatement {statement : Statement}
    (h : SpellsStatement tokens statement.unplaced) : statement.Readable := by
  have hNarrow {part : List Token} {subject : SubjectNode}
      (hSubject : SpellsSubject [.from, .at] part subject.unplaced) :
      subject.keyword ≠ .within := by
    intro (hWithin : subject.unplaced.keyword = .within)
    have hMember := hSubject.keyword_mem
    rw [hWithin] at hMember
    simp at hMember
  cases statement with
  | select node =>
      obtain ⟨_, _, _, _, _, _, _, _, output, _⟩ := node
      cases h with
      | select hSelect =>
          cases hSelect with
          | intro _ _ _ _ _ _ _ _ hOutput =>
              rintro found (rfl : output = some found)
              cases hOutput with
              | present hBehind =>
                  cases hBehind with
                  | intro hFound => exact readable_of_spellsOutput hFound
  | update node =>
      obtain ⟨_, _, _, _⟩ := node
      cases h with
      | update hUpdate =>
          cases hUpdate with
          | intro hSubject hSetters _ => exact ⟨hNarrow hSubject, ne_nil_of_spellsSetters hSetters⟩
  | delete node =>
      obtain ⟨_, _, _⟩ := node
      cases h with
      | delete hDelete =>
          cases hDelete with
          | intro hSubject _ => exact hNarrow hSubject
  | insert node =>
      obtain ⟨⟨_, _, _⟩, _, _, _⟩ := node
      cases h with
      | insert hInsert =>
          cases hInsert with
          | intro _ hSetters _ => exact ne_nil_of_spellsSetters hSetters
  | «show» node => trivial

/-- The statement that a text spells is one that can be given a meaning. -/
theorem readable_of_ofTokens {tokens : Tokens} {statement : Statement}
    (h : Statement.ofTokens tokens = .ok statement) : statement.Readable := by
  obtain ⟨taken, rest, _, _, hWhole, _⟩ := ending_of_ofTokens h
  generalize hTree : statement.unplaced = tree at hWhole
  generalize taken ++ [.endOfInput] = spelled at hWhole
  cases hWhole with
  | plain hSpells => exact readable_of_spellsStatement (hTree ▸ hSpells)
  | closed hSpells => exact readable_of_spellsStatement (hTree ▸ hSpells)

end Readable

end Grammar

/-- Every query that a text means is well-formed. -/
theorem Query.wellFormed_of_ofText {text : String} {q : Query} (h : Query.ofText text = .ok q) :
    q.WellFormed := by
  obtain ⟨statement, hStatement, hQuery⟩ := Grammar.passed h
  obtain ⟨tokens, _, hTokens⟩ := Grammar.passed hStatement
  exact Grammar.toQuery_wellFormed (Grammar.readable_of_ofTokens hTokens) hQuery

end DocQuery
