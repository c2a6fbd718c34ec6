import WideRow.Proofs.Adapter.Tokens

/-!
# The statements of a cascade

Which Java statements a cascade stands for, and that its text is read as these.

Results:
* `CellRead.operand_tokens`, `BranchTest.expression_tokens`: conditions;
* `Final.statement_tokens`, `Guard.statement_tokens`, `Branch.statement_tokens`: statements;
* `Cascade.read_text`: the text of a cascade.
-/

namespace WideRow

open Java

/-! ## What is meant -/

/-- The expression that reads a cell. -/
def CellRead.asExpression (r : CellRead) : Expression :=
  .call (.name "values") "getValue" [.number r.position, .classLiteral r.className]

/-- The expression that a cell is populated. -/
def CellRead.isPresent (r : CellRead) : Expression := .differs r.asExpression .null

/-- The expression that all of the cells are populated. -/
def populatedExpression : List CellRead → Expression
  | [] => .truth true
  | r :: rest => (rest.map CellRead.isPresent).foldl .both r.isPresent

/-- The expression of a test. -/
def BranchTest.asExpression : BranchTest → Expression
  | .isInstance className binding => .isInstance (.name "component") className binding
  | .populated cells => populatedExpression cells

/-- The expression for a message. -/
def Thrown.asExpression : Thrown → Expression
  | .message text => .text text
  | .componentClass =>
    .join (.text "Unknown alternative: ")
      (.call (.call (.name "component") "getClass" []) "getName" [])

/-- The statement that throws an error. -/
def Thrown.asStatement (t : Thrown) : Statement :=
  .throw (.create "AssertionError" [t.asExpression])

/-- The expression that calls an accessor. -/
def AccessCase.asExpression (binding : String) (c : AccessCase) : Expression :=
  .call (.name binding) c.accessor []

/-- The last statement of a branch. -/
def Final.asStatement : Final → Statement
  | .returnNull => .give .null
  | .returnSwitch binding cases =>
    .give (.choose (.name "index") (cases.map fun c => (c.position, c.asExpression binding)) .null)
  | .returnNew className arguments =>
    .give (.create className (arguments.map CellRead.asExpression))
  | .throw thrown => thrown.asStatement

/-- The statement of a guard. -/
def Guard.asStatement (g : Guard) : Statement :=
  .conditional (populatedExpression g.cells) [(Thrown.message g.message).asStatement] []

/-- The statement of a branch, with what is done if its test fails. -/
def Branch.asStatement (b : Branch) (otherwise : List Statement) : Statement :=
  .conditional b.test.asExpression (b.guards.map Guard.asStatement ++ [b.final.asStatement])
    otherwise

/-- The statements of branches: each is tried if those before it fail. -/
def branchStatements (otherwise : Thrown) (branches : List Branch) : List Statement :=
  branches.foldr (fun b rest => [b.asStatement rest]) [otherwise.asStatement]

/-- The statements of a cascade. -/
def Cascade.asStatements (c : Cascade) : List Statement := branchStatements c.otherwise c.branches

/-! ## Conditions -/

section Conditions

variable {n : Nat} {rest : List Token}

/-- The tokens of a class literal are read as its class. -/
theorem IsClassName.classLiteral {className : String} (h : IsClassName className)
    (hrest : ends rest) :
    Java.classLiteral (literalTokens className ++ rest) = some (className, rest) := by
  obtain ⟨path, dims, hpath, rfl⟩ := h
  rw [literalTokens, (reads_classLiteral hpath dims).tokens?_eq, Option.getD_some,
    classLiteral_classTokens (Name.segments_ne_nil path) dims hrest, dotted_segments]

/-- A cell that is read, whatever follows but a further call. -/
theorem CellRead.operand_tokens {r : CellRead} (h : r.Readable)
    (hrest : rest.head? ≠ some (.sign .dot)) :
    operand (expression (n + 1)) (r.tokens ++ rest) = some (r.asExpression, rest) := by
  have hliteral : ∀ ts, ends ts → expression (n + 1) (literalTokens r.className ++ ts) =
      some (.classLiteral r.className, ts) := by
    intro ts hts
    exact expression_of_operand (operand_of_classLiteral (IsClassName.classLiteral h hts)) hts
  have hposition : ∀ ts, ends ts →
      expression (n + 1) ([.number r.position] ++ ts) = some (.number r.position, ts) :=
    fun ts hts => expression_of_operand rfl hts
  have harguments : arguments (expression (n + 1)) ([Token.sign .comma].intercalate
      ([([.number r.position], Expression.number r.position),
        (literalTokens r.className, .classLiteral r.className)].map Prod.fst) ++
      .sign .closeParen :: rest) =
      some ([([.number r.position], Expression.number r.position),
        (literalTokens r.className, .classLiteral r.className)].map Prod.snd, rest) := by
    refine arguments_map ⟨.number r.position, [], rfl, by simp⟩ ?_
    rw [List.forall_mem_cons, List.forall_mem_singleton]
    exact ⟨hposition, hliteral⟩
  have hcall := operand_call (x := "values") (by decide)
    (show "getValue" ≠ "class" by decide) harguments
  rw [calls_of_head hrest] at hcall
  simpa [CellRead.tokens, CellRead.asExpression, List.intercalate_cons_cons] using hcall

/-- The word `null`, whatever follows but a dot or a bracket. -/
theorem operand_null {item : Reader Expression} (hdot : rest.head? ≠ some (.sign .dot))
    (hbracket : rest.head? ≠ some (.sign .openBracket)) :
    operand item (.word "null" :: rest) = some (.null, rest) := by
  rw [operand_of_word (classLiteral_word hdot hbracket)]
  rfl

theorem expression_populatedTokens {cells : List CellRead} (h : ∀ r ∈ cells, r.Readable)
    (rest : List Token) (hrest : ends rest) :
    expression (n + 2) (populatedTokens cells ++ rest) =
      some (populatedExpression cells, rest) := by
  cases cells with
  | nil =>
    refine expression_of_operand ?_ hrest
    rw [populatedTokens, List.singleton_append, operand_of_word]
    · rfl
    · exact classLiteral_word (head?_ne_of_ends hrest rfl) (head?_ne_of_ends hrest rfl)
  | cons r cells =>
    refine chain_map (head?_ne_of_ends hrest rfl) fun r' hr' ts hts => ?_
    have hnext : ts.head? ≠ some (.sign .dot) ∧ ts.head? ≠ some (.sign .openBracket) ∧
        ts.head? ≠ some (.sign .plus) := by
      rcases hts with hts | rfl
      · simp [hts]
      · exact ⟨head?_ne_of_ends hrest rfl, head?_ne_of_ends hrest rfl, head?_ne_of_ends hrest rfl⟩
    rw [List.append_assoc]
    exact comparison_differs (CellRead.operand_tokens (h r' hr') (by simp))
      (operand_null hnext.1 hnext.2.1) hnext.2.2

/-- The tokens of a test are read as its expression. -/
theorem BranchTest.expression_tokens {t : BranchTest} (h : t.Readable) (rest : List Token)
    (hrest : ends rest) :
    expression (n + 2) (t.tokens ++ rest) = some (t.asExpression, rest) := by
  cases t with
  | isInstance className binding =>
    have hcomponent : operand (expression (n + 1)) (.word "component" :: .word "instanceof" ::
        (pathTokens (Name.segments className) ++ .word binding :: rest)) =
        some (.name "component", .word "instanceof" ::
          (pathTokens (Name.segments className) ++ .word binding :: rest)) :=
      operand_name (by decide) (by simp) (by simp)
    have htest := comparison_isInstance (Name.segments_ne_nil className) h.2.2 hcomponent
    rw [dotted_segments] at htest
    refine expression_of_comparison (Eq.trans ?_ htest) hrest
    simp [BranchTest.tokens]
  | populated cells => exact expression_populatedTokens h rest hrest

/-- The name of the class of the component. -/
theorem operand_componentClass {item : Reader Expression}
    (hrest : rest.head? ≠ some (.sign .dot)) :
    operand item (.word "component" :: .sign .dot :: .word "getClass" :: .sign .openParen ::
        .sign .closeParen :: .sign .dot :: .word "getName" :: .sign .openParen ::
        .sign .closeParen :: rest) =
      some (.call (.call (.name "component") "getClass" []) "getName" [], rest) := by
  rw [operand_call (by decide) (by decide) arguments_nil, List.length_cons,
    calls_dot arguments_nil, calls_of_head hrest]

/-- The tokens of a message are read as its expression. -/
theorem Thrown.expression_tokens (t : Thrown) (hrest : ends rest) :
    Java.expression (n + 1) (t.tokens ++ rest) = some (t.asExpression, rest) := by
  cases t with
  | message text => exact expression_of_operand rfl hrest
  | componentClass =>
    have hdot : rest.head? ≠ some (.sign .dot) := head?_ne_of_ends hrest rfl
    have hplus : rest.head? ≠ some (.sign .plus) := head?_ne_of_ends hrest rfl
    have hsum : sum (Java.expression n) (Thrown.componentClass.tokens ++ rest) =
        some (Thrown.componentClass.asExpression, rest) :=
      chain_of_items rfl (operand_componentClass hdot) hplus
    exact expression_of_comparison (comparison_of_sum hsum hrest) hrest

end Conditions

/-! ## Statements -/

section Statements

variable {n : Nat} {rest : List Token}

/-- Tokens that are read as an expression of some depth are long enough to be read as one. -/
theorem expression_of_depth {ts : List Token} {k : Nat} {e : Expression}
    (h : ∀ n, expression (n + k) ts = some (e, rest)) (hk : k ≤ ts.length) :
    expression ts.length ts = some (e, rest) := by
  have hlength := h (ts.length - k)
  rwa [Nat.sub_add_cancel hk] at hlength

/-- A constructor call with arguments that are read one by one. -/
theorem operand_creation (className : String) {item : Reader Expression} {es : List Expression}
    {ts : List Token} (h : arguments item ts = some (es, rest)) :
    operand item (.word "new" :: (pathTokens (Name.segments className) ++
      .sign .openParen :: ts)) = some (.create className es, rest) := by
  have hne := Name.segments_ne_nil className
  obtain ⟨w, us, hpath⟩ := exists_pathTokens hne
  have hread : path (pathTokens (Name.segments className) ++ .sign .openParen :: ts) =
      some ((Name.segments className).map String.ofList, .sign .openParen :: ts) :=
    path_pathTokens hne (by simp)
  rw [operand_of_word (classLiteral_word (by simp [hpath]) (by simp [hpath]))]
  show creation item _ = _
  rw [creation, hread]
  simp [skip, h, dotted_segments]

/-- The tokens that throw an error are read as its statement. -/
theorem Thrown.statement_tokens (t : Thrown) :
    Java.statement (n + 1) (t.statementTokens ++ rest) = some (t.asStatement, rest) := by
  have hmessage : ∀ k, arguments (Java.expression (k + 1))
      ([Token.sign .comma].intercalate ([t].map Thrown.tokens) ++
        .sign .closeParen :: .sign .semicolon :: rest) =
      some ([t].map Thrown.asExpression, .sign .semicolon :: rest) := by
    intro k
    refine arguments_map ?_ fun t' _ ts hts => t'.expression_tokens hts
    cases t <;> exact ⟨_, _, rfl, by simp⟩
  rw [List.map_singleton, List.map_singleton, List.intercalate_singleton] at hmessage
  have hclass : pathTokens (Name.segments "AssertionError") = [.word "AssertionError"] := by
    decide
  have hcreate : ∀ k, Java.expression (k + 2) (.word "new" :: .word "AssertionError" ::
      .sign .openParen :: (t.tokens ++ .sign .closeParen :: .sign .semicolon :: rest)) =
      some (.create "AssertionError" [t.asExpression], .sign .semicolon :: rest) := by
    intro k
    have hcall := operand_creation "AssertionError" (hmessage k)
    rw [hclass] at hcall
    exact expression_of_operand hcall rfl
  have hthrow := statement_throw (n := n) (expression_of_depth hcreate (by simp))
  rw [Thrown.statementTokens, Thrown.asStatement, ← hthrow]
  simp

theorem expression_null {k : Nat} (hrest : ends rest) :
    expression (k + 1) (.word "null" :: rest) = some (.null, rest) :=
  expression_of_operand (operand_null (head?_ne_of_ends hrest rfl) (head?_ne_of_ends hrest rfl))
    hrest

/-- The tokens of an access are read as a call of the accessor. -/
theorem AccessCase.expression_tokens {binding : String} (hbinding : Name.IsFree binding)
    {c : AccessCase} (h : c.Readable) {k : Nat} (hrest : ends rest) :
    expression (k + 1) (c.tokens binding ++ rest) = some (c.asExpression binding, rest) := by
  have hclass : c.accessor ≠ "class" := fun e => h.2 (e ▸ by decide)
  have hdot : rest.head? ≠ some (.sign .dot) := head?_ne_of_ends hrest rfl
  refine expression_of_operand (Eq.trans (operand_call hbinding.2 hclass arguments_nil) ?_) hrest
  exact calls_of_head hdot

/-- A switch over the index. -/
theorem operand_choice {binding : String} (hbinding : Name.IsFree binding) {cases : List AccessCase}
    (h : ∀ c ∈ cases, c.Readable) (rest : List Token) {k : Nat} :
    operand (expression (k + 1)) (.word "switch" :: .sign .openParen :: .word "index" ::
      .sign .closeParen :: .sign .openBrace ::
        ((cases.flatMap fun c => caseTokens c.position (c.tokens binding)) ++
          .word "default" :: .sign .arrow :: .word "null" :: .sign .semicolon ::
            .sign .closeBrace :: rest)) =
      some (.choose (.name "index")
        (cases.map fun c => (c.position, c.asExpression binding)) .null, rest) := by
  have hindex : ∀ ts, expression (k + 1) (.word "index" :: .sign .closeParen :: ts) =
      some (.name "index", .sign .closeParen :: ts) := fun ts =>
    expression_of_operand (operand_name (by decide) (by simp) (by simp)) rfl
  have hlength := length_le_length_cases cases (·.position) (·.tokens binding)
  have hcases : ∀ n, cases.length < n → choices (expression (k + 1)) n
      ((cases.flatMap fun c => caseTokens c.position (c.tokens binding)) ++
        .word "default" :: .sign .arrow :: .word "null" :: .sign .semicolon ::
          .sign .closeBrace :: rest) =
      some (cases.map fun c => (c.position, c.asExpression binding), .word "default" ::
        .sign .arrow :: .word "null" :: .sign .semicolon :: .sign .closeBrace :: rest) :=
    fun n hn => choices_map (by simp)
      (fun c hc ts hts => AccessCase.expression_tokens hbinding (h c hc) hts) hn
  have hnull : expression (k + 1) (.word "null" :: .sign .semicolon :: .sign .closeBrace :: rest) =
      some (.null, .sign .semicolon :: .sign .closeBrace :: rest) := expression_null rfl
  rw [operand_of_word (classLiteral_word (by simp) (by simp))]
  show choice _ _ = _
  simp only [choice, skip, if_true, Option.bind_eq_bind, Option.bind_some, hindex]
  rw [hcases _ (by rw [List.length_append, List.length_cons]; omega)]
  simp [skip, hnull]

/-- The tokens of a last statement are read as it. -/
theorem Final.statement_tokens {f : Final} (h : f.Readable) :
    statement (n + 1) (f.tokens ++ rest) = some (f.asStatement, rest) := by
  cases f with
  | returnNull =>
    exact statement_give (expression_of_depth (k := 1) (fun _ => expression_null rfl) (by simp))
  | returnSwitch binding cases =>
    have hgive := statement_give (n := n) (expression_of_depth (k := 2) (fun k =>
      expression_of_operand (operand_choice h.1 h.2 (.sign .semicolon :: rest)) rfl)
      (by simp))
    refine Eq.trans ?_ hgive
    simp [Final.tokens]
  | returnNew className arguments =>
    have harguments : ∀ k, Java.arguments (expression (k + 2))
        ([Token.sign .comma].intercalate (arguments.map CellRead.tokens) ++
          .sign .closeParen :: .sign .semicolon :: rest) =
        some (arguments.map CellRead.asExpression, .sign .semicolon :: rest) := by
      intro k
      cases arguments with
      | nil => exact arguments_nil
      | cons r arguments =>
        refine arguments_map ⟨_, _, rfl, by simp⟩ fun r' hr' ts hts => ?_
        have hcell := CellRead.operand_tokens (n := k) (h.2 r' hr') (head?_ne_of_ends hts rfl)
        exact expression_of_operand hcell hts
    have hgive := statement_give (n := n) (expression_of_depth (k := 3) (fun k =>
      expression_of_operand (operand_creation className (harguments k)) rfl) (by simp; omega))
    refine Eq.trans ?_ hgive
    cases arguments with
    | nil => simp [Final.tokens]
    | cons r arguments => simp [Final.tokens]
  | throw thrown => exact thrown.statement_tokens

/-- A block that only throws an error. -/
theorem Thrown.block_tokens (t : Thrown) (rest : List Token) {m : Nat} (hm : 2 ≤ m) :
    block (Java.statement (n + 1)) m (t.statementTokens ++ .sign .closeBrace :: rest) =
      some ([t.asStatement], rest) :=
  block_singleton t.statement_tokens hm

/-- The tokens of a guard are read as its statement. -/
theorem Guard.statement_tokens {g : Guard} (h : g.Readable)
    (hrest : rest.head? ≠ some (.word "else")) :
    statement (n + 2) (g.tokens ++ rest) = some (g.asStatement, rest) := by
  have htest := expression_of_depth (k := 2) (fun k => expression_populatedTokens (n := k) h.1
    (.sign .closeParen :: .sign .openBrace ::
      ((Thrown.message g.message).statementTokens ++ .sign .closeBrace :: rest)) rfl)
    (by simp; omega)
  have hbody := (Thrown.message g.message).block_tokens (n := n) rest
    (m := ((Thrown.message g.message).statementTokens ++ .sign .closeBrace :: rest).length)
    (by simp [Thrown.statementTokens])
  refine Eq.trans ?_ (statement_conditional htest hbody (elseBranch_of_head hrest))
  simp [Guard.tokens]

theorem Final.exists_tokens (f : Final) : ∃ w us, f.tokens = .word w :: us ∧ w ≠ "else" := by
  cases f with
  | returnNew className arguments => cases arguments <;> exact ⟨_, _, rfl, by decide⟩
  | _ => exact ⟨_, _, rfl, by decide⟩

/-- The tokens of a branch are read as its statement, with what is read after its `else`. -/
theorem Branch.statement_tokens {b : Branch} (h : b.Readable) {ts : List Token}
    {otherwise : List Statement}
    (hotherwise : elseBranch (statement (n + 2)) (.word "else" :: ts) = some (otherwise, rest)) :
    statement (n + 3) (b.tokens ++ .sign .closeBrace :: .word "else" :: ts) =
      some (b.asStatement otherwise, rest) := by
  -- the guards and the last statement are statements of one block
  let items : List (List Token × Statement) :=
    b.guards.map (fun g => (g.tokens, g.asStatement)) ++ [(b.final.tokens, b.final.asStatement)]
  have hitems : items.flatMap Prod.fst = b.guards.flatMap Guard.tokens ++ b.final.tokens := by
    simp [items, List.flatMap_map]
  have hvalues : items.map Prod.snd = b.guards.map Guard.asStatement ++ [b.final.asStatement] := by
    simp [items]
  have htest := expression_of_depth (k := 2) (fun k => BranchTest.expression_tokens (n := k) h.test
    (.sign .closeParen :: .sign .openBrace :: (items.flatMap Prod.fst ++
      .sign .closeBrace :: .word "else" :: ts)) rfl) (by simp; omega)
  have hbody : block (statement (n + 2)) (items.flatMap Prod.fst ++
      .sign .closeBrace :: .word "else" :: ts).length (items.flatMap Prod.fst ++
      .sign .closeBrace :: .word "else" :: ts) = some (items.map Prod.snd, .word "else" :: ts) := by
    refine block_map ?_ ?_ (by simp)
    · intro item hitem
      rcases List.mem_append.1 hitem with hitem | hitem
      · obtain ⟨g, -, rfl⟩ := List.mem_map.1 hitem
        exact ⟨_, _, rfl, by decide⟩
      · rw [List.mem_singleton.1 hitem]
        exact b.final.exists_tokens
    · intro item hitem us hus
      rcases List.mem_append.1 hitem with hitem | hitem
      · obtain ⟨g, hg, rfl⟩ := List.mem_map.1 hitem
        exact Guard.statement_tokens (h.guards g hg) hus
      · rw [List.mem_singleton.1 hitem]
        exact Final.statement_tokens h.final
  have hall := statement_conditional htest hbody hotherwise
  rw [hvalues, hitems] at hall
  refine Eq.trans ?_ hall
  simp [Branch.tokens]

end Statements

/-! ## Cascades -/

section Cascades

variable {branches : List Branch}

/-- What stands after an `else` is read as the branches that are left. -/
theorem elseBranch_tokensAfterElse (otherwise : Thrown) (rest : List Token)
    (h : ∀ b ∈ branches, b.Readable) {n : Nat} (hn : branches.length + 2 ≤ n) :
    elseBranch (statement n) (.word "else" :: (tokensAfterElse otherwise branches ++ rest)) =
      some (branchStatements otherwise branches, rest) := by
  -- each branch is nested in the `else` of the one before, so each takes one from the depth
  induction branches generalizing n with
  | nil =>
    obtain ⟨n, rfl⟩ : ∃ m, n = m + 1 := ⟨n - 1, by omega⟩
    have hthrow := otherwise.block_tokens (n := n) rest
      (m := (otherwise.statementTokens ++ .sign .closeBrace :: rest).length)
      (by simp [Thrown.statementTokens])
    refine Eq.trans ?_ hthrow
    simp [tokensAfterElse, elseBranch]
  | cons b branches ih =>
    rw [List.forall_mem_cons] at h
    rw [List.length_cons] at hn
    obtain ⟨n, rfl⟩ : ∃ m, n = m + 3 := ⟨n - 3, by omega⟩
    have hbranch := Branch.statement_tokens h.1 (ih h.2 (n := n + 2) (by omega))
    refine Eq.trans ?_ (elseBranch_word hbranch)
    simp [tokensAfterElse, Branch.tokens]

theorem length_tokensAfterElse (otherwise : Thrown) (branches : List Branch) :
    branches.length + 2 ≤ (tokensAfterElse otherwise branches).length := by
  induction branches with
  | nil => simp [tokensAfterElse]
  | cons b branches ih =>
    rw [tokensAfterElse, List.length_append, List.length_append, List.length_cons]
    simp only [List.length_cons, List.length_nil]
    omega

/-- The text of a cascade is read as its statements. -/
theorem Cascade.read_text {c : Cascade} (h : c.Readable) :
    read c.write.text = some c.asStatements := by
  obtain ⟨branches, otherwise⟩ := c
  have hbody : block (statement (Cascade.mk branches otherwise).tokens.length)
      ((Cascade.mk branches otherwise).tokens.length + 1)
      ((Cascade.mk branches otherwise).tokens ++ [.sign .closeBrace]) =
      some (branchStatements otherwise branches, []) := by
    cases branches with
    | nil => exact otherwise.block_tokens [] (by simp [Cascade.tokens, Thrown.statementTokens])
    | cons b branches =>
      have hbranches := List.forall_mem_cons.1 h.branches
      have hlength := length_tokensAfterElse otherwise (b :: branches)
      rw [List.length_cons] at hlength
      obtain ⟨n, hn⟩ : ∃ n, (tokensAfterElse otherwise (b :: branches)).length = n + 3 :=
        ⟨(tokensAfterElse otherwise (b :: branches)).length - 3, by omega⟩
      have hbranch := Branch.statement_tokens hbranches.1 (elseBranch_tokensAfterElse
        otherwise [.sign .closeBrace] hbranches.2 (n := n + 2) (by omega))
      have hblock := block_singleton (n := n + 4) hbranch (by omega)
      show block (statement (tokensAfterElse otherwise (b :: branches)).length)
        ((tokensAfterElse otherwise (b :: branches)).length + 1) _ = _
      rw [hn]
      refine Eq.trans ?_ hblock
      simp [Cascade.tokens, tokensAfterElse, Branch.tokens]
  rw [Java.read, Cascade.tokens?_text h]
  simp [hbody, Cascade.asStatements]

end Cascades

end WideRow
