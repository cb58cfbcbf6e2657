import DocQuery.Grammar.Meaning

/-! The traces that tokens leave in a statement. Every part of a statement keeps
the places of its tokens, and a number keeps its digits as well. What is wrong
with the meaning of a statement is wrong at one of its traces. -/
namespace DocQuery.Grammar

/-- A place in a statement, with the digits of the number that stands there. -/
structure Trace where
  position : Position
  digits : Option String := none

section Traces

mutual

/-- The traces in a value. -/
def ValueNode.traces : ValueNode → List Trace
  | .string _ position => [⟨position, none⟩]
  | .number digits position => [⟨position, some digits⟩]
  | .bool _ position => [⟨position, none⟩]
  | .null position => [⟨position, none⟩]
  | .array items position => ⟨position, none⟩ :: ValueNode.tracesOfItems items
  | .name _ position => [⟨position, none⟩]

def ValueNode.tracesOfItems : List ValueNode → List Trace
  | [] => []
  | item :: rest => item.traces ++ ValueNode.tracesOfItems rest

end

/-- A value has a trace where it begins. -/
theorem ValueNode.exists_trace (node : ValueNode) :
    ∃ trace ∈ node.traces, trace.position = node.position := by
  cases node <;> exact ⟨_, List.mem_cons_self, rfl⟩

theorem ValueNode.tracesOfItems_eq (items : List ValueNode) :
    ValueNode.tracesOfItems items = items.flatMap ValueNode.traces := by
  induction items with
  | nil => rfl
  | cons item rest ih => rw [ValueNode.tracesOfItems, ih, List.flatMap_cons]

def Name.traces (name : Name) : List Trace :=
  [⟨name.position, none⟩]

def SubjectNode.traces (node : SubjectNode) : List Trace :=
  [⟨node.position, none⟩]

def PredicateNode.traces (node : PredicateNode) : List Trace :=
  node.property.traces ++ node.value.traces

/-- The traces in a where clause that may be missing. -/
def tracesOfWhere (predicates : Option (List PredicateNode)) : List Trace :=
  predicates.toList.flatMap fun nodes => nodes.flatMap PredicateNode.traces

def SorterNode.traces (node : SorterNode) : List Trace :=
  node.property.traces

def SetterNode.traces (node : SetterNode) : List Trace :=
  node.property.traces ++ node.value.traces

def FieldsNode.traces : FieldsNode → List Trace
  | .star => []
  | .list properties => properties.flatMap Name.traces

def OutputNode.traces (node : OutputNode) : List Trace :=
  ⟨node.position, none⟩ :: node.format.toList.flatMap Name.traces

/-- The traces in a select, clause by clause. -/
def SelectNode.traces (node : SelectNode) : List Trace :=
  ⟨node.position, none⟩ :: (node.fields.traces ++ node.subject.traces ++
    tracesOfWhere node.predicates ++
    (node.sorters.toList.flatMap fun nodes => nodes.flatMap SorterNode.traces) ++
    node.limit.toList.flatMap ValueNode.traces ++ node.page.toList.flatMap ValueNode.traces ++
    node.group.toList.flatMap Name.traces ++ node.function.toList.flatMap Name.traces ++
    node.output.toList.flatMap OutputNode.traces)

def UpdateNode.traces (node : UpdateNode) : List Trace :=
  ⟨node.position, none⟩ :: (node.subject.traces ++ node.setters.flatMap SetterNode.traces ++
    tracesOfWhere node.predicates)

def DeleteNode.traces (node : DeleteNode) : List Trace :=
  ⟨node.position, none⟩ :: (node.subject.traces ++ tracesOfWhere node.predicates)

def InsertNode.traces (node : InsertNode) : List Trace :=
  ⟨node.position, none⟩ :: (node.collection.traces ++ node.setters.flatMap SetterNode.traces ++
    node.identifier.toList.flatMap ValueNode.traces)

def ShowNode.traces (node : ShowNode) : List Trace :=
  ⟨node.position, none⟩ :: (node.subject.toList.flatMap SubjectNode.traces ++
    tracesOfWhere node.predicates)

/-- The traces in a statement. -/
def Statement.traces : Statement → List Trace
  | .select node => node.traces
  | .update node => node.traces
  | .delete node => node.traces
  | .insert node => node.traces
  | .show node => node.traces

end Traces

/-- A trace is left by lexemes if one of them stands at its place, and if its
digits, behind a minus sign or not, are those of a number token among them. -/
structure Trace.LeftBy (text : List Lexeme) (trace : Trace) : Prop where
  place : ∃ lexeme ∈ text, lexeme.position = trace.position
  digits : ∀ digits ∈ trace.digits, ∃ lexeme ∈ text, ∃ unsigned,
    lexeme.token = .number unsigned ∧ (digits = unsigned ∨ digits = "-" ++ unsigned)

/-- Lexemes leave all of these traces. -/
def Leave (text : List Lexeme) (traces : List Trace) : Prop :=
  ∀ trace ∈ traces, trace.LeftBy text

section Leaving

variable {text : List Lexeme} {first second : List Trace} {lexeme : Lexeme} {position : Position}

theorem leave_nil : Leave text [] :=
  nofun

/-- The traces of two parts are left if those of each part are. -/
theorem Leave.append (h : Leave text first) (hMore : Leave text second) :
    Leave text (first ++ second) :=
  List.forall_mem_append.mpr ⟨h, hMore⟩

/-- A lexeme leaves its place. -/
theorem Leave.cons (h : Leave text first) (hMember : lexeme ∈ text)
    (hPlace : lexeme.position = position) : Leave text (⟨position, none⟩ :: first) :=
  List.forall_mem_cons.mpr ⟨⟨⟨lexeme, hMember, hPlace⟩, nofun⟩, h⟩

/-- A token leaves its own place as a trace. -/
theorem leave_place (hMember : lexeme ∈ text) (hPlace : lexeme.position = position) :
    Leave text [⟨position, none⟩] :=
  leave_nil.cons hMember hPlace

/-- A number leaves its digits where it stands, or where the minus sign in front
of it does. -/
theorem leave_digits {number : Lexeme} {digits unsigned : String} (hMember : lexeme ∈ text)
    (hPlace : lexeme.position = position) (hNumber : number ∈ text)
    (hToken : number.token = .number unsigned)
    (hDigits : digits = unsigned ∨ digits = "-" ++ unsigned) :
    Leave text [⟨position, some digits⟩] := by
  refine List.forall_mem_singleton.mpr ⟨⟨lexeme, hMember, hPlace⟩, ?_⟩
  rintro _ ⟨⟩
  exact ⟨number, hNumber, unsigned, hToken, hDigits⟩

end Leaving

end DocQuery.Grammar
