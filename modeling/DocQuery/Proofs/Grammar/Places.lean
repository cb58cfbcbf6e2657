import DocQuery.Proofs.Grammar.Checking
import DocQuery.Proofs.Grammar.Completeness
import DocQuery.Proofs.Grammar.Layout

/-! Places carry no meaning: what a statement means is told by its tree alone.
So two texts with the same tokens mean the same query, wherever the tokens stand
in them. -/
namespace DocQuery.Grammar

/-- Texts with the same tokens mean the same, wherever these stand. -/
theorem endAlike_ofText {text other : String} {tokens others : Tokens}
    (hText : scan text = .ok tokens) (hOther : scan other = .ok others)
    (hTokens : others.toList.map Lexeme.token = tokens.toList.map Lexeme.token) :
    EndAlike (Query.ofText other) (Query.ofText text) := by
  have hRead {text : String} {tokens : Tokens} (h : scan text = .ok tokens) :
      Query.ofText text = Statement.ofTokens tokens >>= Statement.toQuery := by
    simp only [Query.ofText, Statement.ofText, h]
    rfl
  rw [hRead hText, hRead hOther]
  cases hStatement : Statement.ofTokens tokens with
  | ok statement =>
      have hSpells := spellsWhole_of_ofTokens hText hStatement
      rw [← hTokens] at hSpells
      obtain ⟨found, hFound, hSame⟩ := ofTokens_of_spellsWhole hSpells
      have hAlike := (checks_toQuery found).endAlike.symm
      rw [hSame] at hAlike
      rw [hFound]
      exact hAlike.trans (checks_toQuery statement).endAlike
  | error complaint =>
      cases hFound : Statement.ofTokens others with
      | error other => exact endAlike_error _ _
      | ok found =>
          have hSpells := spellsWhole_of_ofTokens hOther hFound
          rw [hTokens] at hSpells
          obtain ⟨statement, hOk, _⟩ := ofTokens_of_spellsWhole hSpells
          rw [hOk] at hStatement
          cases hStatement

/-- Layout and the case of keywords carry no meaning. A text whose tokens are
set apart anew, by white space and comments that begin with white space, and
whose keywords are written in any case has the same tokens, and it means the
same query or means none either. -/
theorem Query.ofText_relaid {text relaid : String} {tokens : Tokens}
    (hScan : scan text = .ok tokens) (hRelaid : Relaid tokens.lexemes relaid.toList) :
    (∃ others, scan relaid = .ok others ∧
      others.toList.map Lexeme.token = tokens.toList.map Lexeme.token) ∧
    ∀ q, Query.ofText relaid = .ok q ↔ Query.ofText text = .ok q := by
  obtain ⟨others, hOthers, hLexemes⟩ := (hRelaid.scans (wasRead_of_scanWithin hScan)).scan_eq
  have hTokens : others.toList.map Lexeme.token = tokens.toList.map Lexeme.token := by
    simp only [Tokens.toList, List.map_append, hLexemes]
    rfl
  have hAlike := endAlike_ofText hScan hOthers hTokens
  exact ⟨⟨others, hOthers, hTokens⟩, fun q => hAlike.eq_ok_iff⟩

/-- A dotted name, a mark of two characters, and a minus in front of a number
with an exponent. -/
def Tokens.packed : Tokens :=
  ⟨[⟨.keyword .select, ⟨0, 1, 1⟩, "select"⟩, ⟨.mark .star, ⟨6, 1, 7⟩, "*"⟩,
    ⟨.keyword .from, ⟨7, 1, 8⟩, "from"⟩, ⟨.identifier "a.b", ⟨12, 1, 13⟩, "a.b"⟩,
    ⟨.keyword .where, ⟨16, 1, 17⟩, "where"⟩, ⟨.identifier "n", ⟨22, 1, 23⟩, "n"⟩,
    ⟨.mark .lessThanOrEqual, ⟨23, 1, 24⟩, "<="⟩, ⟨.mark .minus, ⟨25, 1, 26⟩, "-"⟩,
    ⟨.number "1.5e3", ⟨26, 1, 27⟩, "1.5E3"⟩], ⟨31, 1, 32⟩⟩

theorem Query.ofText_relaid_packed :
    scan "select*from a.b where n<=-1.5E3" = .ok Tokens.packed ∧
    Relaid Tokens.packed.lexemes
      " SELECT -- all\n * From\ta.b wHere n\n<= - 1.5E3 ".toList ∧
    (∃ others, scan " SELECT -- all\n * From\ta.b wHere n\n<= - 1.5E3 " = .ok others ∧
      others.toList.map Lexeme.token = Tokens.packed.toList.map Lexeme.token) ∧
    ∀ q, Query.ofText " SELECT -- all\n * From\ta.b wHere n\n<= - 1.5E3 " = .ok q ↔
      Query.ofText "select*from a.b where n<=-1.5E3" = .ok q := by
  have hScan : scan "select*from a.b where n<=-1.5E3" = .ok Tokens.packed := rfl
  have hBlank {c : Char} (h : Text.isBlank c = true) : Gap [c] := ⟨h, .nil false⟩
  have hComment : Gap " -- all\n ".toList :=
    ⟨rfl, @Layout.comment false " all".toList [' '] (by decide) (.blank rfl (.nil false))⟩
  have hSelect : "SELECT".toList.map Char.toLower = "select".toList.map Char.toLower := by
    decide +kernel
  have hFrom : "From".toList.map Char.toLower = "from".toList.map Char.toLower := by
    decide +kernel
  have hWhere : "wHere".toList.map Char.toLower = "where".toList.map Char.toLower := by
    decide +kernel
  have hPieces : Relaid Tokens.packed.lexemes ([' '] ++ ("SELECT".toList ++
      (" -- all\n ".toList ++ ("*".toList ++ ([' '] ++ ("From".toList ++ (['\t'] ++ ("a.b".toList ++
      ([' '] ++ ("wHere".toList ++ ([' '] ++ ("n".toList ++ (['\n'] ++ ("<=".toList ++
      ([' '] ++ ("-".toList ++ ([' '] ++ ("1.5E3".toList ++ [' '])))))))))))))))))) :=
    .token (hBlank rfl) hSelect <| .token hComment rfl <| .token (hBlank rfl) hFrom <|
    .token (hBlank rfl) rfl <| .token (hBlank rfl) hWhere <| .token (hBlank rfl) rfl <|
    .token (hBlank rfl) rfl <| .token (hBlank rfl) rfl <| .token (hBlank rfl) rfl <|
    .finish (hBlank rfl)
  have hRelaid : Relaid Tokens.packed.lexemes
      " SELECT -- all\n * From\ta.b wHere n\n<= - 1.5E3 ".toList := hPieces
  exact ⟨hScan, hRelaid, Query.ofText_relaid hScan hRelaid⟩

end DocQuery.Grammar
