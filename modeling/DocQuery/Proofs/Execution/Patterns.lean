import DocQuery.Proofs.Execution.Checks
import DocQuery.Proofs.Execution.ClauseOrder
import DocQuery.Proofs.Selection.Patterns

/-! Clauses with patterns. A pattern of at most a thousand characters keeps the
texts that its pieces make up, with a gap for every percent sign. A statement
with a longer one is refused before the store is asked, so such a pattern is
never compared with anything. -/
namespace DocQuery

theorem Pattern.fits_iff (pattern : String) :
    fits pattern = true ↔ pattern.toList.length ≤ maxLength :=
  decide_eq_true_iff

/-- A plan leaves no clause with a pattern to the store. -/
theorem Plan.mem_localClauses_of_like {plan : Plan} {subject : Subject} {clauses : List Clause}
    {order : List OrderKey} {limit page : Option Nat} {clause : Clause}
    (h : make subject clauses order limit page = .ok plan) (hClause : clause ∈ clauses)
    (hLike : clause.operator = .like) : clause ∈ plan.localClauses := by
  by_cases hKind : subject.kind = .document
  · rw [make, if_pos hKind] at h
    obtain rfl := Except.ok.inj h
    exact hClause
  · obtain ⟨rfl, hSupported⟩ := eq_forMany_of_make hKind h
    refine List.mem_filter.mpr ⟨hClause, ?_⟩
    cases hLocal : clause.isLocal with
    | true => rfl
    | false =>
        have hRemote : clause ∈ clauses.filter fun clause => !clause.isLocal :=
          List.mem_filter.mpr ⟨hClause, by simp [hLocal]⟩
        have hSome := List.find?_eq_none.mp hSupported clause hRemote
        rw [hLike] at hSome
        exact absurd rfl hSome

/-- The plan of a statement with clauses is made from them. -/
theorem Query.exists_plan_of_mem {query : Query} {clause : Clause} (h : clause ∈ query.clauses) :
    ∃ made : Except PlanError Plan, query.plan? = some <$> made ∧
      ∀ plan, made = .ok plan → ∃ subject order limit page,
        Plan.make subject query.clauses order limit page = .ok plan := by
  cases query with
  | select q => exact ⟨q.plan, bind_pure_comp some q.plan, fun _ hMake => ⟨_, _, _, _, hMake⟩⟩
  | update q => exact ⟨q.plan, bind_pure_comp some q.plan, fun _ hMake => ⟨_, _, _, _, hMake⟩⟩
  | delete q => exact ⟨q.plan, bind_pure_comp some q.plan, fun _ hMake => ⟨_, _, _, _, hMake⟩⟩
  | insert q => cases h
  | «show» q => cases h

/-- A statement that is refused: neither explained nor run, with everything left
as it was. -/
def Query.Refused (query : Query) : Prop :=
  ∃ fault : PlanError, query.explain = .error fault ∧ ∀ (engine : Engine) (world : World),
    resultOf (engine.execute query) world = .error (.unplannable fault) ∧
      finishOf (engine.execute query) world = world

/-- What cannot be explained is refused by every engine in every world. -/
theorem Query.refused_of_explain {query : Query} {fault : PlanError}
    (h : query.explain = .error fault) : query.Refused := by
  refine ⟨fault, h, fun engine world => ?_⟩
  cases engine.checksAsExplained_execute query with
  | @refused found hExplain hRun =>
      obtain rfl := Except.error.inj (hExplain.symm.trans h)
      exact ⟨hRun world, engine.checksFirst_execute query world _ (hRun world) trivial⟩
  | passed hExplain _ => cases hExplain.symm.trans h

/-- A pattern that does not pass its check is enough to refuse a statement. -/
theorem Query.refused_of_check {query : Query} {clause : Clause} {fault : PlanError}
    (hClause : clause ∈ query.clauses) (hLike : clause.operator = .like)
    (hCheck : clause.check = .error fault) : query.Refused := by
  obtain ⟨made, hPlan, hMake⟩ := exists_plan_of_mem hClause
  rcases explain_cases hPlan with ⟨refusal, hExplain, _⟩ | ⟨plan, hPlanned, hChecked, _⟩
  · exact refused_of_explain hExplain
  · obtain ⟨subject, order, limit, page, hMade⟩ := hMake plan hPlanned
    have hLocal := Plan.mem_localClauses_of_like hMade hClause hLike
    cases (checkClauses_eq_ok_iff.mp hChecked clause hLocal).symm.trans hCheck

/-- A clause with a pattern keeps the documents whose property is a text that
the pattern matches. -/
theorem Clause.holds_like_iff (property pattern : String) (isLocal : Bool) (flat : Fields) :
    Clause.holds ⟨property, .like, .string pattern, isLocal⟩ flat = true ↔
      ∃ text, flat.get? property = some (.string text) ∧ Pattern.accepts pattern text = true := by
  rw [Clause.holds]
  cases flat.get? property with
  | none => simp
  | some actual =>
      cases actual with
      | string text => simp [Clause.accepts, Value.text?]
      | _ => simp [Clause.accepts, Value.text?]

/-- A pattern of at most a thousand characters keeps the texts made of its
pieces and gaps. A longer one is refused with every statement that has it. -/
theorem Clause.like_by_pieces (property pattern : String) (isLocal : Bool) :
    (pattern.toList.length ≤ Pattern.maxLength →
      Clause.check ⟨property, .like, .string pattern, isLocal⟩ = .ok () ∧
      ∀ flat : Fields, Clause.holds ⟨property, .like, .string pattern, isLocal⟩ flat = true ↔
        ∃ text, flat.get? property = some (.string text) ∧
          Pattern.MadeOf (pattern.toList.splitOn '%') text.toList) ∧
    (Pattern.maxLength < pattern.toList.length →
      Clause.check ⟨property, .like, .string pattern, isLocal⟩ =
        .error (.invalidPattern property .tooLong) ∧
      ∀ query : Query, ⟨property, .like, .string pattern, isLocal⟩ ∈ query.clauses →
        query.Refused) := by
  have hFits := Pattern.fits_iff pattern
  constructor
  · intro hShort
    refine ⟨if_pos (hFits.mpr hShort), fun flat => ?_⟩
    simp only [Clause.holds_like_iff, Pattern.accepts_iff]
  · intro hLong
    have hCheck : Clause.check ⟨property, .like, .string pattern, isLocal⟩ =
        .error (.invalidPattern property .tooLong) :=
      if_neg fun hFit => Nat.not_le_of_lt hLong (hFits.mp hFit)
    exact ⟨hCheck, fun query hClause => Query.refused_of_check hClause rfl hCheck⟩

/-- A pattern that is one character too long. -/
def Pattern.endless : String :=
  String.ofList (List.replicate 1001 '%')

theorem Pattern.length_endless : endless.toList.length = 1001 :=
  (congrArg List.length String.toList_ofList).trans List.length_replicate

/-- The two pieces may meet, and may not overlap. -/
theorem Clause.like_by_pieces_meeting :
    "a.%.a".toList.length ≤ Pattern.maxLength ∧
      Clause.holds ⟨"n", .like, .string "a.%.a", true⟩ [("n", .string "a..a")] = true ∧
      Pattern.maxLength < Pattern.endless.toList.length ∧
      (Query.delete ⟨⟨"c", .collection⟩,
        [⟨"n", .like, .string Pattern.endless, true⟩]⟩).Refused := by
  have hShort : "a.%.a".toList.length ≤ Pattern.maxLength := by decide
  have hLong : Pattern.maxLength < Pattern.endless.toList.length := by
    rw [Pattern.length_endless]
    exact Nat.lt_succ_self 1000
  have hMade : Pattern.MadeOf ("a.%.a".toList.splitOn '%') "a..a".toList :=
    ⟨[[]], by decide, by simp, by decide⟩
  refine ⟨hShort, ?_, hLong, ?_⟩
  · exact (((like_by_pieces "n" "a.%.a" true).1 hShort).2 _).mpr ⟨"a..a", rfl, hMade⟩
  · exact ((like_by_pieces "n" Pattern.endless true).2 hLong).2 _ List.mem_cons_self

end DocQuery
