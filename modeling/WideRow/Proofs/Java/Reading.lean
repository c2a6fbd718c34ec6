import WideRow.Proofs.Java.Syntax

/-!
# Reading statements

What the readers make of tokens that are put together piece by piece. A piece is read whatever
comes after it, as long as that does not continue the piece.

Results:
* `separated_map`, `chain_map`: lists with a token between their items;
* `path_pathTokens`, `classLiteral_classTokens`: dotted names and class literals;
* `operand_call`, `arguments_map`, `choices_map`: calls and switch expressions;
* `expression_of_comparison`, `expression_of_operand`: from one level of the grammar to the next;
* `statement_conditional`, `block_map`: statements.
-/

namespace WideRow.Java

/-! ## Tokens that come next -/

/-- The tokens begin with one that ends every expression. -/
def ends : List Token → Bool
  | .sign .comma :: _ => true
  | .sign .semicolon :: _ => true
  | .sign .closeParen :: _ => true
  | _ => false

theorem exists_of_ends {ts : List Token} (h : ends ts) :
    ∃ s rest, ts = .sign s :: rest ∧ (s = .comma ∨ s = .semicolon ∨ s = .closeParen) := by
  unfold ends at h
  split at h
  · exact ⟨_, _, rfl, .inl rfl⟩
  · exact ⟨_, _, rfl, .inr (.inl rfl)⟩
  · exact ⟨_, _, rfl, .inr (.inr rfl)⟩
  · cases h

theorem head?_ne_of_ends {ts : List Token} {t : Token} (h : ends ts) (ht : ends [t] = false) :
    ts.head? ≠ some t := by
  obtain ⟨s, rest, rfl, hs⟩ := exists_of_ends h
  rintro ⟨⟩
  rcases hs with rfl | rfl | rfl <;> cases ht

@[simp] theorem skip_append (us ts : List Token) : skip us (us ++ ts) = some ts := by
  induction us with
  | nil => cases ts <;> rfl
  | cons u us ih => rw [List.cons_append, skip, if_pos rfl, ih]

theorem skip_one_eq_none {t : Token} {ts : List Token} (h : ts.head? ≠ some t) :
    skip [t] ts = none := by
  cases ts with
  | nil => rfl
  | cons u ts =>
    have hne : ¬ u = t := by simpa using h
    rw [skip, if_neg hne]

/-! ## Lists of items -/

section Separated

variable {α β : Type} {separator : Token} {item : Reader α} {rest : List Token}

/-- A list with a token between its items is read item by item. -/
theorem separated_map {items : List β} {tokensOf : β → List Token} {value : β → α}
    (hne : items ≠ []) (hrest : rest.head? ≠ some separator)
    (hitem : ∀ b ∈ items, ∀ ts, ts.head? = some separator ∨ ts = rest →
      item (tokensOf b ++ ts) = some (value b, ts))
    {n : Nat} (hn : items.length ≤ n) :
    separated separator item n ([separator].intercalate (items.map tokensOf) ++ rest) =
      some (items.map value, rest) := by
  induction items generalizing n with
  | nil => exact absurd rfl hne
  | cons b items ih =>
    rw [List.forall_mem_cons] at hitem
    obtain ⟨n, rfl⟩ : ∃ m, n = m + 1 := ⟨n - 1, by rw [List.length_cons] at hn; omega⟩
    cases items with
    | nil =>
      have hb := hitem.1 rest (.inr rfl)
      simp [separated, hb, skip_one_eq_none hrest]
    | cons b' items =>
      have hmore := ih (List.cons_ne_nil _ _) hitem.2 (Nat.le_of_succ_le_succ hn)
      rw [List.map_cons] at hmore
      have hb := hitem.1 ([separator] ++
        ([separator].intercalate (tokensOf b' :: items.map tokensOf) ++ rest)) (.inl rfl)
      rw [List.map_cons, List.map_cons, List.intercalate_cons_cons, List.append_assoc,
        List.append_assoc, separated, hb]
      simp only [Option.bind_eq_bind, Option.bind_some, skip_append]
      rw [hmore]
      rfl

/-- There is a token between any two items. -/
theorem length_le_length_intercalate (separator : Token) (items : List (List Token)) :
    items.length ≤ ([separator].intercalate items).length + 1 := by
  induction items with
  | nil => exact Nat.zero_le _
  | cons us items ih =>
    cases items with
    | nil => simp
    | cons us' items =>
      rw [List.intercalate_cons_cons, List.length_append, List.length_append, List.length_cons]
      rw [List.length_singleton]
      omega

/-- One operand that no operator follows. -/
theorem chain_of_item {operator : Token} {apply : Expression → Expression → Expression}
    {item : Reader Expression} {e : Expression} {ts rest : List Token}
    (h : item ts = some (e, rest)) (hrest : rest.head? ≠ some operator) :
    chain operator apply item ts = some (e, rest) := by
  simp [chain, separated, h, skip_one_eq_none hrest]

/-- Two operands with an operator between them. -/
theorem chain_of_items {operator t : Token} {apply : Expression → Expression → Expression}
    {item : Reader Expression} {e e' : Expression} {ts us rest : List Token}
    (h : item (t :: ts) = some (e, operator :: us)) (h' : item us = some (e', rest))
    (hrest : rest.head? ≠ some operator) :
    chain operator apply item (t :: ts) = some (apply e e', rest) := by
  simp [chain, separated, h, skip, h', skip_one_eq_none hrest]

/-- Operands with an operator between them. -/
theorem chain_map {operator : Token} {apply : Expression → Expression → Expression}
    {item : Reader Expression} {b : β} {items : List β} {tokensOf : β → List Token}
    {value : β → Expression} (hrest : rest.head? ≠ some operator)
    (hitem : ∀ b' ∈ b :: items, ∀ ts, ts.head? = some operator ∨ ts = rest →
      item (tokensOf b' ++ ts) = some (value b', ts)) :
    chain operator apply item ([operator].intercalate ((b :: items).map tokensOf) ++ rest) =
      some ((items.map value).foldl apply (value b), rest) := by
  have hlength := length_le_length_intercalate operator ((b :: items).map tokensOf)
  rw [List.length_map] at hlength
  rw [chain, separated_map (List.cons_ne_nil _ _) hrest hitem (by rw [List.length_append]; omega)]
  rfl

end Separated

/-! ## Dotted names and class literals -/

section Names

variable {ts rest : List Token}

theorem furtherWords_of_head (h : ts.head? ≠ some (.sign .dot)) : furtherWords ts = ([], ts) := by
  unfold furtherWords
  split
  · exact absurd rfl h
  · rfl

theorem furtherWords_dot {ws : List String} (h : path ts = some (ws, rest)) :
    furtherWords (.sign .dot :: ts) = (ws, rest) := by
  unfold path at h
  split at h
  · cases h
    rfl
  · cases h

/-- A dotted name is read as its words. -/
theorem path_pathTokens {segments : List (List Char)} (hne : segments ≠ [])
    (hrest : rest.head? ≠ some (.sign .dot)) :
    path (pathTokens segments ++ rest) = some (segments.map String.ofList, rest) := by
  induction segments with
  | nil => exact absurd rfl hne
  | cons w segments ih =>
    cases segments with
    | nil =>
      rw [pathTokens, List.singleton_append, path, furtherWords_of_head hrest]
      rfl
    | cons v segments =>
      rw [pathTokens, List.cons_append, List.cons_append, path,
        furtherWords_dot (ih (List.cons_ne_nil _ _))]
      · rfl
      · simp

theorem dotted_segments (s : String) : dotted ((Name.segments s).map String.ofList) = s := by
  apply String.toList_injective
  rw [dotted, String.toList_intercalate, List.map_map]
  simp [Name.segments, Function.comp_def]

/-- The tokens of pairs of brackets. -/
def bracketTokens : Nat → List Token
  | 0 => []
  | n + 1 => .sign .openBracket :: .sign .closeBracket :: bracketTokens n

theorem brackets_of_head (h : ts.head? ≠ some (.sign .openBracket)) : brackets ts = (0, ts) := by
  unfold brackets
  split
  · exact absurd rfl h
  · rfl

theorem brackets_bracketTokens (n : Nat) (hrest : rest.head? ≠ some (.sign .openBracket)) :
    brackets (bracketTokens n ++ rest) = (n, rest) := by
  induction n with
  | zero => exact brackets_of_head hrest
  | succ n ih => rw [bracketTokens, List.cons_append, List.cons_append, brackets, ih]

/-- The tokens of the class literal of a dotted name with dimensions. -/
def classTokens (segments : List (List Char)) (n : Nat) : List Token :=
  pathTokens segments ++ bracketTokens n ++ [.sign .dot, .word "class"]

theorem pathTokens_concat {segments : List (List Char)} (hne : segments ≠ []) (w : List Char) :
    pathTokens (segments ++ [w]) =
      pathTokens segments ++ [.sign .dot, .word (String.ofList w)] := by
  induction segments with
  | nil => exact absurd rfl hne
  | cons v segments ih =>
    cases segments with
    | nil => rfl
    | cons u segments =>
      have hmore := ih (List.cons_ne_nil _ _)
      show .word (String.ofList v) :: .sign .dot :: pathTokens ((u :: segments) ++ [w]) = _
      rw [hmore]
      rfl

/-- A class literal is read as the name of its class. -/
theorem classLiteral_classTokens {segments : List (List Char)} (hne : segments ≠ []) (n : Nat)
    (hrest : ends rest) :
    classLiteral (classTokens segments n ++ rest) =
      some (dotted (segments.map String.ofList) ++ dimensions n, rest) := by
  have hdot : rest.head? ≠ some (.sign .dot) := head?_ne_of_ends hrest rfl
  have hbracket : rest.head? ≠ some (.sign .openBracket) := head?_ne_of_ends hrest rfl
  cases n with
  | zero =>
    have htokens : classTokens segments 0 = pathTokens (segments ++ ["class".toList]) := by
      rw [pathTokens_concat hne, classTokens, bracketTokens, List.append_nil, String.ofList_toList]
    have hlength : 2 ≤ ((segments ++ ["class".toList]).map String.ofList).length := by
      have := List.length_pos_iff.2 hne
      rw [List.length_map, List.length_append, List.length_singleton]
      omega
    rw [classLiteral, htokens, path_pathTokens (by simp) hdot]
    simp only [Option.bind_eq_bind, Option.bind_some, brackets_of_head hbracket]
    rw [if_pos ⟨hlength, by simp⟩]
    simp [dimensions]
  | succ n =>
    have hnext : (bracketTokens (n + 1) ++
        ([Token.sign .dot, .word "class"] ++ rest)).head? ≠ some (.sign .dot) := by
      simp [bracketTokens]
    rw [classLiteral, classTokens, List.append_assoc, List.append_assoc, path_pathTokens hne hnext]
    simp only [Option.bind_eq_bind, Option.bind_some]
    rw [brackets_bracketTokens _ (by simp)]
    simp only [skip_append]
    rfl

/-- A word that is alone is no class literal. -/
theorem classLiteral_word {w : String} (hdot : ts.head? ≠ some (.sign .dot))
    (hbracket : ts.head? ≠ some (.sign .openBracket)) : classLiteral (.word w :: ts) = none := by
  simp [classLiteral, path, furtherWords_of_head hdot, brackets_of_head hbracket]

/-- A call is no class literal. -/
theorem classLiteral_call {x method : String} (h : method ≠ "class") :
    classLiteral (.word x :: .sign .dot :: .word method :: .sign .openParen :: ts) = none := by
  simp [classLiteral, path, furtherWords, brackets, h]

end Names

/-! ## Operands -/

section Operands

variable {item : Reader Expression} {ts rest : List Token}

theorem wordOperand_of_not_reserved {w : String} (h : ¬ Name.isReserved w) :
    wordOperand item w ts = calls item (ts.length + 1) (.name w) ts := by
  unfold wordOperand
  split
  case h_6 => rw [if_neg h]
  all_goals exact absurd (by decide) h

theorem operand_of_classLiteral {className : String}
    (h : classLiteral ts = some (className, rest)) :
    operand item ts = some (.classLiteral className, rest) := by
  unfold operand
  rw [h]

theorem operand_of_word {w : String} (h : classLiteral (.word w :: ts) = none) :
    operand item (.word w :: ts) = wordOperand item w ts := by
  rw [operand, h]

theorem calls_of_head {n : Nat} {e : Expression} (h : ts.head? ≠ some (.sign .dot)) :
    calls item (n + 1) e ts = some (e, ts) := by
  rw [calls]
  rintro method us rfl
  exact h rfl

theorem calls_dot {n : Nat} {e : Expression} {method : String} {es : List Expression}
    (h : arguments item ts = some (es, rest)) :
    calls item (n + 1) e (.sign .dot :: .word method :: .sign .openParen :: ts) =
      calls item n (.call e method es) rest := by
  rw [calls, h]
  rfl

/-- A name that nothing is called on. -/
theorem operand_name {w : String} (hw : ¬ Name.isReserved w)
    (hdot : ts.head? ≠ some (.sign .dot)) (hbracket : ts.head? ≠ some (.sign .openBracket)) :
    operand item (.word w :: ts) = some (.name w, ts) := by
  rw [operand_of_word (classLiteral_word hdot hbracket), wordOperand_of_not_reserved hw,
    calls_of_head hdot]

/-- A call on a name, and what is called on its result. -/
theorem operand_call {x method : String} {es : List Expression} (hx : ¬ Name.isReserved x)
    (hmethod : method ≠ "class") (h : arguments item ts = some (es, rest)) :
    operand item (.word x :: .sign .dot :: .word method :: .sign .openParen :: ts) =
      calls item (ts.length + 3) (.call (.name x) method es) rest := by
  rw [operand_of_word (classLiteral_call hmethod), wordOperand_of_not_reserved hx,
    List.length_cons, List.length_cons, List.length_cons, calls_dot h]

theorem arguments_nil : arguments item (.sign .closeParen :: ts) = some ([], ts) := by
  rw [arguments, show Token.sign .closeParen :: ts = [.sign .closeParen] ++ ts by rfl, skip_append]

/-- The arguments of a call, of which each begins with something else than a parenthesis. -/
theorem arguments_map {β : Type} {b : β} {items : List β} {tokensOf : β → List Token}
    {value : β → Expression}
    (hopen : ∃ t us, tokensOf b = t :: us ∧ t ≠ .sign .closeParen)
    (hitem : ∀ b' ∈ b :: items, ∀ ts, ends ts → item (tokensOf b' ++ ts) = some (value b', ts)) :
    arguments item ([.sign .comma].intercalate ((b :: items).map tokensOf) ++
      .sign .closeParen :: rest) = some ((b :: items).map value, rest) := by
  have hlength := length_le_length_intercalate (.sign .comma) ((b :: items).map tokensOf)
  rw [List.length_map] at hlength
  have hskip : skip [.sign .closeParen] ([.sign .comma].intercalate ((b :: items).map tokensOf) ++
      .sign .closeParen :: rest) = none := by
    obtain ⟨t, us, hb, ht⟩ := hopen
    apply skip_one_eq_none
    cases items <;> simp [List.intercalate_cons_cons, hb, ht]
  have hends : ∀ ts, ts.head? = some (.sign .comma) ∨ ts = .sign .closeParen :: rest → ends ts := by
    rintro ts (h | rfl)
    · obtain ⟨more, rfl⟩ := List.head?_eq_some_iff.1 h
      rfl
    · rfl
  rw [arguments, hskip]
  dsimp only
  rw [separated_map (List.cons_ne_nil _ _) (by simp)
    (fun b' hb' ts hts => hitem b' hb' ts (hends ts hts))
    (by rw [List.length_append]; omega)]
  simp only [Option.bind_eq_bind, Option.bind_some]
  rw [show Token.sign .closeParen :: rest = [.sign .closeParen] ++ rest by rfl, skip_append]
  rfl

end Operands

/-! ## Comparisons and conjunctions -/

section Levels

variable {item : Reader Expression} {ts us rest : List Token} {e e' : Expression}

/-- A sum that neither a comparison nor a further operand follows. -/
theorem comparison_of_sum (h : sum item ts = some (e, rest)) (hrest : ends rest) :
    comparison item ts = some (e, rest) := by
  obtain ⟨s, more, rfl, hs⟩ := exists_of_ends hrest
  rw [comparison, h]
  rcases hs with rfl | rfl | rfl <;> rfl

/-- An operand that neither an operator nor `instanceof` follows. -/
theorem comparison_of_operand (h : operand item ts = some (e, rest)) (hrest : ends rest) :
    comparison item ts = some (e, rest) :=
  comparison_of_sum (chain_of_item h (head?_ne_of_ends hrest rfl)) hrest

theorem comparison_differs (h : operand item ts = some (e, .sign .differs :: us))
    (h' : operand item us = some (e', rest)) (hrest : rest.head? ≠ some (.sign .plus)) :
    comparison item ts = some (.differs e e', rest) := by
  have hsum : sum item ts = some (e, .sign .differs :: us) := chain_of_item h (by simp)
  have hsum' : sum item us = some (e', rest) := chain_of_item h' hrest
  rw [comparison, hsum]
  simp [hsum']

theorem comparison_isInstance {segments : List (List Char)} (hne : segments ≠ []) {x : String}
    (hx : ¬ Name.isReserved x)
    (h : operand item ts =
      some (e, .word "instanceof" :: (pathTokens segments ++ .word x :: rest))) :
    comparison item ts = some (.isInstance e (dotted (segments.map String.ofList)) x, rest) := by
  have hsum : sum item ts =
      some (e, .word "instanceof" :: (pathTokens segments ++ .word x :: rest)) :=
    chain_of_item h (by simp)
  rw [comparison, hsum]
  simp only [Option.bind_eq_bind, Option.bind_some]
  rw [path_pathTokens hne (by simp)]
  simp [hx]

theorem expression_of_comparison {n : Nat} (h : comparison (expression n) ts = some (e, rest))
    (hrest : ends rest) : expression (n + 1) ts = some (e, rest) :=
  chain_of_item h (head?_ne_of_ends hrest rfl)

/-- An operand that is a whole expression. -/
theorem expression_of_operand {n : Nat} (h : operand (expression n) ts = some (e, rest))
    (hrest : ends rest) : expression (n + 1) ts = some (e, rest) :=
  expression_of_comparison (comparison_of_operand h hrest) hrest

end Levels

/-! ## Switch expressions -/

section Switch

variable {β : Type} {item : Reader Expression} {rest : List Token}

/-- The tokens of a case. -/
def caseTokens (position : Nat) (us : List Token) : List Token :=
  .word "case" :: .number position :: .sign .arrow :: (us ++ [.sign .semicolon])

theorem length_le_length_cases (items : List β) (position : β → Nat)
    (tokensOf : β → List Token) :
    items.length ≤ (items.flatMap fun b => caseTokens (position b) (tokensOf b)).length := by
  induction items with
  | nil => exact Nat.zero_le _
  | cons b items ih =>
    rw [List.flatMap_cons, List.length_append, List.length_cons, caseTokens, List.length_cons]
    omega

/-- The cases of a switch expression are read one by one. -/
theorem choices_map {items : List β} {position : β → Nat} {tokensOf : β → List Token}
    {value : β → Expression} (hrest : rest.head? ≠ some (.word "case"))
    (hitem : ∀ b ∈ items, ∀ ts, ends ts → item (tokensOf b ++ ts) = some (value b, ts))
    {n : Nat} (hn : items.length < n) :
    choices item n ((items.flatMap fun b => caseTokens (position b) (tokensOf b)) ++ rest) =
      some (items.map fun b => (position b, value b), rest) := by
  induction items generalizing n with
  | nil =>
    obtain ⟨n, rfl⟩ : ∃ m, n = m + 1 := ⟨n - 1, by omega⟩
    rw [List.flatMap_nil, List.nil_append, choices]
    · rfl
    · rintro k us rfl
      exact hrest rfl
  | cons b items ih =>
    rw [List.length_cons] at hn
    rw [List.forall_mem_cons] at hitem
    obtain ⟨n, rfl⟩ : ∃ m, n = m + 1 := ⟨n - 1, by omega⟩
    have hb := hitem.1 ([.sign .semicolon] ++
      ((items.flatMap fun b => caseTokens (position b) (tokensOf b)) ++ rest)) rfl
    rw [List.flatMap_cons, caseTokens, List.cons_append, List.cons_append, List.cons_append,
      List.cons_append, List.cons_append, List.cons_append, List.append_assoc, List.append_assoc,
      choices, hb]
    simp only [Option.bind_eq_bind, Option.bind_some, skip_append]
    rw [ih hitem.2 (by omega)]
    rfl

end Switch

/-! ## Statements -/

section Statements

variable {n : Nat} {ts us vs rest : List Token} {e : Expression}

theorem statement_give
    (h : expression ts.length ts = some (e, .sign .semicolon :: rest)) :
    statement (n + 1) (.word "return" :: ts) = some (.give e, rest) := by
  simp [statement, h, skip]

theorem statement_throw
    (h : expression ts.length ts = some (e, .sign .semicolon :: rest)) :
    statement (n + 1) (.word "throw" :: ts) = some (.throw e, rest) := by
  simp [statement, h, skip]

theorem statement_conditional {body otherwise : List Statement}
    (htest : expression ts.length ts = some (e, .sign .closeParen :: .sign .openBrace :: us))
    (hbody : block (statement n) us.length us = some (body, vs))
    (hotherwise : elseBranch (statement n) vs = some (otherwise, rest)) :
    statement (n + 1) (.word "if" :: .sign .openParen :: ts) =
      some (.conditional e body otherwise, rest) := by
  simp [statement, htest, skip, hbody, hotherwise]

theorem elseBranch_of_head {item : Reader Statement} (h : ts.head? ≠ some (.word "else")) :
    elseBranch item ts = some ([], ts) := by
  unfold elseBranch
  split
  · exact absurd rfl h
  · exact absurd rfl h
  · rfl

theorem elseBranch_word {item : Reader Statement} {w : String} {s : Statement}
    (h : item (.word w :: ts) = some (s, rest)) :
    elseBranch item (.word "else" :: .word w :: ts) = some ([s], rest) := by
  simp [elseBranch, h]

/-- Statements that begin with words other than `else` are read up to the brace after them. -/
theorem block_map {β : Type} {item : Reader Statement} {items : List β}
    {tokensOf : β → List Token} {value : β → Statement}
    (hopen : ∀ b ∈ items, ∃ w us, tokensOf b = .word w :: us ∧ w ≠ "else")
    (hitem : ∀ b ∈ items, ∀ ts, ts.head? ≠ some (.word "else") →
      item (tokensOf b ++ ts) = some (value b, ts))
    (hn : (items.flatMap tokensOf).length < n) :
    block item n (items.flatMap tokensOf ++ .sign .closeBrace :: rest) =
      some (items.map value, rest) := by
  induction items generalizing n with
  | nil =>
    obtain ⟨n, rfl⟩ : ∃ m, n = m + 1 := ⟨n - 1, by omega⟩
    rfl
  | cons b items ih =>
    rw [List.forall_mem_cons] at hopen hitem
    obtain ⟨⟨w, us, hb, -⟩, hopen⟩ := hopen
    have hnext : (items.flatMap tokensOf ++ .sign .closeBrace :: rest).head? ≠
        some (.word "else") := by
      cases items with
      | nil => simp
      | cons b' items =>
        obtain ⟨w', us', hb', hw'⟩ := hopen b' List.mem_cons_self
        simp [hb', hw']
    have hread := hitem.1 _ hnext
    rw [List.flatMap_cons, List.length_append, hb, List.length_cons] at hn
    obtain ⟨n, rfl⟩ : ∃ m, n = m + 1 := ⟨n - 1, by omega⟩
    rw [List.flatMap_cons, List.append_assoc]
    rw [hb, List.cons_append] at hread ⊢
    rw [block, hread]
    · simp only [Option.bind_eq_bind, Option.bind_some]
      rw [ih hopen hitem.2 (by omega)]
      rfl
    · simp

/-- A block of one statement. -/
theorem block_singleton {item : Reader Statement} {w : String} {s : Statement}
    (h : item (.word w :: ts) = some (s, .sign .closeBrace :: rest)) (hn : 2 ≤ n) :
    block item n (.word w :: ts) = some ([s], rest) := by
  obtain ⟨n, rfl⟩ : ∃ m, n = m + 2 := ⟨n - 2, by omega⟩
  simp [block, h]

end Statements

end WideRow.Java
