import Jack.Proofs.Steps

/-!
# Marks determine trees

Every construct is enclosed by its opening and its closing mark, so a tree can be read
back from the marks that were written for it: two trees with the same marks are equal.
The statements speak of marks that go on behind the tree, for the induction.
-/

namespace Jack
namespace Tree

theorem enclose_append (nonterminal : Nonterminal) (parts rest : List Mark) :
    enclose nonterminal parts ++ rest =
      .opening nonterminal :: (parts ++ .closing nonterminal :: rest) := by
  simp [enclose]

/-- Lines hold their marks. -/
theorem map_mark_linesFrom (depth : Int) (marks : List Mark) :
    (linesFrom depth marks).map Line.mark = marks := by
  induction marks generalizing depth with
  | nil => rfl
  | cons mark rest ih =>
      cases mark with
      | opening nonterminal => simp [linesFrom, ih]
      | closing nonterminal => simp [linesFrom, ih]
      | leaf token => simp [linesFrom, ih]

end Tree

namespace Syntax

open Jack.Tree

theorem Binary.symbol_injective : Function.Injective Binary.symbol := by
  intro op op' h
  cases op <;> cases op' <;> simp_all [Binary.symbol]

theorem Unary.symbol_injective : Function.Injective Unary.symbol := by
  intro op op' h
  cases op <;> cases op' <;> simp_all [Unary.symbol]

theorem Unary.symbol_ne_leftParen (op : Unary) : op.symbol ≠ .leftParen := by
  cases op <;> decide

theorem Constant.keyword_injective : Function.Injective Constant.keyword := by
  intro value value' h
  cases value <;> cases value' <;> simp_all [Constant.keyword]

mutual

theorem Expr.eq_of_parts : forall {e e' : Expr} {r r' : List Mark},
    e.parts ++ .closing .expression :: r = e'.parts ++ .closing .expression :: r' ->
    e = e' ∧ r = r'
  | .mk first rest, .mk first' rest', r, r', h => by
      simp only [Expr.parts, List.cons_append, List.append_assoc, enclose_append,
        List.cons.injEq, true_and] at h
      rcases Term.eq_of_parts h with ⟨hfirst, htail⟩
      rcases Operations.eq_of_parts htail with ⟨hrest, hr⟩
      exact ⟨by rw [hfirst, hrest], hr⟩

theorem Operations.eq_of_parts : forall {rest rest' : Operations} {r r' : List Mark},
    rest.parts ++ .closing .expression :: r = rest'.parts ++ .closing .expression :: r' ->
    rest = rest' ∧ r = r'
  | .nil, .nil, r, r', h => by
      injection h with _ hr
      exact ⟨rfl, hr⟩
  | .nil, .cons _ _ _, r, r', h => by
      injection h with hcontra _
      cases hcontra
  | .cons _ _ _, .nil, r, r', h => by
      injection h with hcontra _
      cases hcontra
  | .cons op operand rest, .cons op' operand' rest', r, r', h => by
      simp only [Operations.parts, List.append_assoc, List.cons_append, enclose_append,
        List.cons.injEq, true_and, Mark.leaf.injEq, Token.symbol.injEq] at h
      rcases h with ⟨hop, htail⟩
      rcases Term.eq_of_parts htail with ⟨hoperand, htail⟩
      rcases Operations.eq_of_parts htail with ⟨hrest, hr⟩
      exact ⟨by rw [Binary.symbol_injective hop, hoperand, hrest], hr⟩

theorem Term.eq_of_parts : forall {t t' : Term} {r r' : List Mark},
    t.parts ++ .closing .term :: r = t'.parts ++ .closing .term :: r' -> t = t' ∧ r = r'
  | .integer digits, t', r, r', h => by
      cases t' with
      | integer digits' => simpa [Term.parts] using h
      | _ => simp [Term.parts] at h
  | .string text, t', r, r', h => by
      cases t' with
      | string text' => simpa [Term.parts] using h
      | _ => simp [Term.parts] at h
  | .constant value, t', r, r', h => by
      cases t' with
      | constant value' =>
          simp only [Term.parts, List.cons_append, List.nil_append, List.cons.injEq, true_and,
            Mark.leaf.injEq, Token.keyword.injEq] at h
          exact ⟨by rw [Constant.keyword_injective h.1], h.2⟩
      | _ => simp [Term.parts] at h
  | .paren inner, t', r, r', h => by
      cases t' with
      | paren inner' =>
          simp only [Term.parts, List.cons_append, List.append_assoc, enclose_append,
            List.cons.injEq, true_and] at h
          rcases Expr.eq_of_parts h with ⟨hinner, htail⟩
          injection htail with _ htail
          injection htail with _ hr
          exact ⟨by rw [hinner], hr⟩
      | unary op operand => simp [Term.parts, (Unary.symbol_ne_leftParen op).symm] at h
      | _ => simp [Term.parts] at h
  | .unary op operand, t', r, r', h => by
      cases t' with
      | unary op' operand' =>
          simp only [Term.parts, List.cons_append, enclose_append, List.cons.injEq, true_and,
            Mark.leaf.injEq, Token.symbol.injEq] at h
          rcases h with ⟨hop, htail⟩
          rcases Term.eq_of_parts htail with ⟨hoperand, htail⟩
          injection htail with _ hr
          exact ⟨by rw [Unary.symbol_injective hop, hoperand], hr⟩
      | paren inner => simp [Term.parts, Unary.symbol_ne_leftParen op] at h
      | _ => simp [Term.parts] at h
  | .var name, t', r, r', h => by
      cases t' with
      | var name' => simpa [Term.parts] using h
      | _ => simp [Term.parts] at h
  | .element name index, t', r, r', h => by
      cases t' with
      | element name' index' =>
          simp only [Term.parts, List.cons_append, List.append_assoc, enclose_append,
            List.cons.injEq, true_and, Mark.leaf.injEq, Token.identifier.injEq] at h
          rcases h with ⟨hname, htail⟩
          rcases Expr.eq_of_parts htail with ⟨hindex, htail⟩
          injection htail with _ htail
          injection htail with _ hr
          exact ⟨by rw [hname, hindex], hr⟩
      | _ => simp [Term.parts] at h
  | .call name arguments, t', r, r', h => by
      cases t' with
      | call name' arguments' =>
          simp only [Term.parts, List.cons_append, List.append_assoc, enclose_append,
            List.cons.injEq, true_and, Mark.leaf.injEq, Token.identifier.injEq] at h
          rcases h with ⟨hname, htail⟩
          rcases Arguments.eq_of_parts htail with ⟨harguments, htail⟩
          injection htail with _ htail
          injection htail with _ hr
          exact ⟨by rw [hname, harguments], hr⟩
      | _ => simp [Term.parts] at h
  | .callOn owner name arguments, t', r, r', h => by
      cases t' with
      | callOn owner' name' arguments' =>
          simp only [Term.parts, List.cons_append, List.append_assoc, enclose_append,
            List.cons.injEq, true_and, Mark.leaf.injEq, Token.identifier.injEq] at h
          rcases h with ⟨howner, hname, htail⟩
          rcases Arguments.eq_of_parts htail with ⟨harguments, htail⟩
          injection htail with _ htail
          injection htail with _ hr
          exact ⟨by rw [howner, hname, harguments], hr⟩
      | _ => simp [Term.parts] at h

theorem Arguments.eq_of_parts : forall {arguments arguments' : Arguments} {r r' : List Mark},
    arguments.parts ++ .closing .expressionList :: r =
      arguments'.parts ++ .closing .expressionList :: r' ->
    arguments = arguments' ∧ r = r'
  | .nil, .nil, r, r', h => by
      injection h with _ hr
      exact ⟨rfl, hr⟩
  | .nil, .cons _ _, r, r', h => by
      injection h with hcontra _
      cases hcontra
  | .cons _ _, .nil, r, r', h => by
      injection h with hcontra _
      cases hcontra
  | .cons first rest, .cons first' rest', r, r', h => by
      simp only [Arguments.parts, List.cons_append, List.append_assoc, enclose_append,
        List.cons.injEq, true_and] at h
      rcases Expr.eq_of_parts h with ⟨hfirst, htail⟩
      rcases Arguments.eq_of_partsAfterFirst htail with ⟨hrest, hr⟩
      exact ⟨by rw [hfirst, hrest], hr⟩

theorem Arguments.eq_of_partsAfterFirst :
    forall {arguments arguments' : Arguments} {r r' : List Mark},
      arguments.partsAfterFirst ++ .closing .expressionList :: r =
        arguments'.partsAfterFirst ++ .closing .expressionList :: r' ->
      arguments = arguments' ∧ r = r'
  | .nil, .nil, r, r', h => by
      injection h with _ hr
      exact ⟨rfl, hr⟩
  | .nil, .cons _ _, r, r', h => by
      injection h with hcontra _
      cases hcontra
  | .cons _ _, .nil, r, r', h => by
      injection h with hcontra _
      cases hcontra
  | .cons first rest, .cons first' rest', r, r', h => by
      simp only [Arguments.partsAfterFirst, List.cons_append, List.append_assoc,
        enclose_append, List.cons.injEq, true_and] at h
      rcases Expr.eq_of_parts h with ⟨hfirst, htail⟩
      rcases Arguments.eq_of_partsAfterFirst htail with ⟨hrest, hr⟩
      exact ⟨by rw [hfirst, hrest], hr⟩

end

theorem Expr.eq_of_marks {e e' : Expr} {r r' : List Mark}
    (h : e.marks ++ r = e'.marks ++ r') : e = e' ∧ r = r' := by
  rw [Expr.marks, Expr.marks, enclose_append, enclose_append] at h
  injection h with _ h
  exact Expr.eq_of_parts h

theorem Arguments.eq_of_marks {arguments arguments' : Arguments} {r r' : List Mark}
    (h : arguments.marks ++ r = arguments'.marks ++ r') : arguments = arguments' ∧ r = r' := by
  rw [Arguments.marks, Arguments.marks, enclose_append, enclose_append] at h
  injection h with _ h
  exact Arguments.eq_of_parts h

/-!
# Statements
-/

theorem Statement.exists_marks_eq_opening (s : Statement) :
    exists nonterminal rest, s.marks = .opening nonterminal :: rest := by
  cases s <;> exact ⟨_, _, rfl⟩

mutual

theorem Statement.eq_of_marks : forall {s s' : Statement} {r r' : List Mark},
    s.marks ++ r = s'.marks ++ r' -> s = s' ∧ r = r'
  | .assign name value, s', r, r', h => by
      cases s' with
      | assign name' value' =>
          simp only [Statement.marks, enclose_append, List.cons_append, List.append_assoc,
            List.cons.injEq, true_and, Mark.leaf.injEq, Token.identifier.injEq] at h
          rcases h with ⟨hname, htail⟩
          rcases Expr.eq_of_marks htail with ⟨hvalue, htail⟩
          simp only [List.nil_append, List.cons.injEq, true_and] at htail
          exact ⟨by rw [hname, hvalue], htail⟩
      | _ => simp [Statement.marks, enclose] at h
  | .store name index value, s', r, r', h => by
      cases s' with
      | store name' index' value' =>
          simp only [Statement.marks, enclose_append, List.cons_append, List.append_assoc,
            List.cons.injEq, true_and, Mark.leaf.injEq, Token.identifier.injEq] at h
          rcases h with ⟨hname, htail⟩
          rcases Expr.eq_of_marks htail with ⟨hindex, htail⟩
          simp only [List.cons.injEq, true_and] at htail
          rcases Expr.eq_of_marks htail with ⟨hvalue, htail⟩
          simp only [List.nil_append, List.cons.injEq, true_and] at htail
          exact ⟨by rw [hname, hindex, hvalue], htail⟩
      | _ => simp [Statement.marks, enclose] at h
  | .call name arguments, s', r, r', h => by
      cases s' with
      | call name' arguments' =>
          simp only [Statement.marks, enclose_append, List.cons_append, List.append_assoc,
            List.cons.injEq, true_and, Mark.leaf.injEq, Token.identifier.injEq] at h
          rcases h with ⟨hname, htail⟩
          rcases Arguments.eq_of_marks htail with ⟨harguments, htail⟩
          simp only [List.nil_append, List.cons.injEq, true_and] at htail
          exact ⟨by rw [hname, harguments], htail⟩
      | _ => simp [Statement.marks, enclose] at h
  | .callOn owner name arguments, s', r, r', h => by
      cases s' with
      | callOn owner' name' arguments' =>
          simp only [Statement.marks, enclose_append, List.cons_append, List.append_assoc,
            List.cons.injEq, true_and, Mark.leaf.injEq, Token.identifier.injEq] at h
          rcases h with ⟨howner, hname, htail⟩
          rcases Arguments.eq_of_marks htail with ⟨harguments, htail⟩
          simp only [List.nil_append, List.cons.injEq, true_and] at htail
          exact ⟨by rw [howner, hname, harguments], htail⟩
      | _ => simp [Statement.marks, enclose] at h
  | .leave, s', r, r', h => by
      cases s' with
      | leave => simpa [Statement.marks, enclose] using h
      | give value => simp [Statement.marks, enclose, Expr.marks] at h
      | _ => simp [Statement.marks, enclose] at h
  | .give value, s', r, r', h => by
      cases s' with
      | give value' =>
          simp only [Statement.marks, enclose_append, List.cons_append, List.append_assoc,
            List.cons.injEq, true_and] at h
          rcases Expr.eq_of_marks h with ⟨hvalue, htail⟩
          simp only [List.nil_append, List.cons.injEq, true_and] at htail
          exact ⟨by rw [hvalue], htail⟩
      | leave => simp [Statement.marks, enclose, Expr.marks] at h
      | _ => simp [Statement.marks, enclose] at h
  | .ifThen condition body, s', r, r', h => by
      cases s' with
      | ifThen condition' body' =>
          simp only [Statement.marks, enclose_append, List.cons_append, List.append_assoc,
            List.cons.injEq, true_and] at h
          rcases Expr.eq_of_marks h with ⟨hcondition, htail⟩
          simp only [List.cons.injEq, true_and] at htail
          rcases Block.eq_of_parts htail with ⟨hbody, htail⟩
          simp only [List.nil_append, List.cons.injEq, true_and] at htail
          exact ⟨by rw [hcondition, hbody], htail⟩
      | ifElse condition' body' other' =>
          simp only [Statement.marks, enclose_append, List.cons_append, List.append_assoc,
            List.cons.injEq, true_and] at h
          rcases Expr.eq_of_marks h with ⟨_, htail⟩
          simp only [List.cons.injEq, true_and] at htail
          rcases Block.eq_of_parts htail with ⟨_, htail⟩
          simp at htail
      | _ => simp [Statement.marks, enclose] at h
  | .ifElse condition body other, s', r, r', h => by
      cases s' with
      | ifElse condition' body' other' =>
          simp only [Statement.marks, enclose_append, List.cons_append, List.append_assoc,
            List.cons.injEq, true_and] at h
          rcases Expr.eq_of_marks h with ⟨hcondition, htail⟩
          simp only [List.cons.injEq, true_and] at htail
          rcases Block.eq_of_parts htail with ⟨hbody, htail⟩
          simp only [List.cons.injEq, true_and] at htail
          rcases Block.eq_of_parts htail with ⟨hother, htail⟩
          simp only [List.nil_append, List.cons.injEq, true_and] at htail
          exact ⟨by rw [hcondition, hbody, hother], htail⟩
      | ifThen condition' body' =>
          simp only [Statement.marks, enclose_append, List.cons_append, List.append_assoc,
            List.cons.injEq, true_and] at h
          rcases Expr.eq_of_marks h with ⟨_, htail⟩
          simp only [List.cons.injEq, true_and] at htail
          rcases Block.eq_of_parts htail with ⟨_, htail⟩
          simp at htail
      | _ => simp [Statement.marks, enclose] at h
  | .loop condition body, s', r, r', h => by
      cases s' with
      | loop condition' body' =>
          simp only [Statement.marks, enclose_append, List.cons_append, List.append_assoc,
            List.cons.injEq, true_and] at h
          rcases Expr.eq_of_marks h with ⟨hcondition, htail⟩
          simp only [List.cons.injEq, true_and] at htail
          rcases Block.eq_of_parts htail with ⟨hbody, htail⟩
          simp only [List.nil_append, List.cons.injEq, true_and] at htail
          exact ⟨by rw [hcondition, hbody], htail⟩
      | _ => simp [Statement.marks, enclose] at h

theorem Block.eq_of_parts : forall {block block' : Block} {r r' : List Mark},
    block.parts ++ .closing .statements :: r = block'.parts ++ .closing .statements :: r' ->
    block = block' ∧ r = r'
  | .nil, .nil, r, r', h => by
      injection h with _ hr
      exact ⟨rfl, hr⟩
  | .nil, .cons first' rest', r, r', h => by
      rcases Statement.exists_marks_eq_opening first' with ⟨_, _, hopening⟩
      simp [Block.parts, hopening] at h
  | .cons first rest, .nil, r, r', h => by
      rcases Statement.exists_marks_eq_opening first with ⟨_, _, hopening⟩
      simp [Block.parts, hopening] at h
  | .cons first rest, .cons first' rest', r, r', h => by
      rw [Block.parts, Block.parts, List.append_assoc, List.append_assoc] at h
      rcases Statement.eq_of_marks h with ⟨hfirst, htail⟩
      rcases Block.eq_of_parts htail with ⟨hrest, hr⟩
      exact ⟨by rw [hfirst, hrest], hr⟩

end

theorem Block.marks_injective : Function.Injective Block.marks := by
  intro block block' h
  rw [Block.marks, Block.marks, enclose, enclose] at h
  injection h with _ h
  exact (Block.eq_of_parts h).1

theorem Block.eq_of_marks {block block' : Block} {r r' : List Mark}
    (h : block.marks ++ r = block'.marks ++ r') : block = block' ∧ r = r' := by
  rw [Block.marks, Block.marks, enclose_append, enclose_append] at h
  injection h with _ h
  exact Block.eq_of_parts h

/-!
# Declarations
-/

/-- Lists can be told from what they are mapped to if all items become lists of one length,
which is not zero. -/
theorem flatMap_injective {α β : Type} {f : α -> List β} {n : Nat}
    (hlength : forall a, (f a).length = n + 1) (hf : Function.Injective f) :
    Function.Injective fun items : List α => items.flatMap f := by
  intro items
  induction items with
  | nil =>
      intro items' h
      cases items' with
      | nil => rfl
      | cons a' rest' =>
          have hlist := congrArg List.length h
          simp only [List.flatMap_nil, List.flatMap_cons, List.length_nil, List.length_append,
            hlength] at hlist
          omega
  | cons a rest ih =>
      intro items' h
      cases items' with
      | nil =>
          have hlist := congrArg List.length h
          simp only [List.flatMap_nil, List.flatMap_cons, List.length_nil, List.length_append,
            hlength] at hlist
          omega
      | cons a' rest' =>
          simp only [List.flatMap_cons] at h
          rcases List.append_inj h ((hlength a).trans (hlength a').symm) with ⟨ha, hrest⟩
          rw [hf ha, ih hrest]

/-- Leaves go on up to the mark that closes them. -/
theorem eq_of_leaves {tokens tokens' : List Token} {nonterminal : Nonterminal}
    {r r' : List Mark}
    (h : tokens.map Mark.leaf ++ .closing nonterminal :: r =
      tokens'.map Mark.leaf ++ .closing nonterminal :: r') : tokens = tokens' ∧ r = r' := by
  induction tokens generalizing tokens' with
  | nil =>
      cases tokens' with
      | nil => simpa using h
      | cons token' rest' => simp at h
  | cons token rest ih =>
      cases tokens' with
      | nil => simp at h
      | cons token' rest' =>
          simp only [List.map_cons, List.cons_append, List.cons.injEq, Mark.leaf.injEq] at h
          rcases ih h.2 with ⟨hrest, hr⟩
          exact ⟨by rw [h.1, hrest], hr⟩

theorem eq_of_enclosed_leaves {tokens tokens' : List Token} {nonterminal : Nonterminal}
    {r r' : List Mark}
    (h : enclose nonterminal (tokens.map Mark.leaf) ++ r =
      enclose nonterminal (tokens'.map Mark.leaf) ++ r') : tokens = tokens' ∧ r = r' := by
  rw [enclose_append, enclose_append] at h
  injection h with _ h
  exact eq_of_leaves h

theorem TypeName.token_injective : Function.Injective TypeName.token := by
  intro type type' h
  cases type <;> cases type' <;> simp_all [TypeName.token]

theorem Names.tokens_injective : Function.Injective Names.tokens := by
  intro names names' h
  rcases names with ⟨type, first, others⟩
  rcases names' with ⟨type', first', others'⟩
  simp only [Names.tokens, List.cons.injEq, Token.identifier.injEq, List.append_left_inj] at h
  rcases h with ⟨htype, rfl, hothers⟩
  have hinjective : Function.Injective fun name => [Token.symbol .comma, .identifier name] := by
    intro name name' hname
    simpa using hname
  rw [TypeName.token_injective htype, flatMap_injective (n := 1) (fun _ => rfl) hinjective hothers]

theorem ClassVar.tokens_injective : Function.Injective ClassVar.tokens := by
  intro v v' h
  rcases v with ⟨isStatic, names⟩
  rcases v' with ⟨isStatic', names'⟩
  simp only [ClassVar.tokens, List.cons.injEq] at h
  rw [Names.tokens_injective h.2]
  cases isStatic <;> cases isStatic' <;> simp_all

theorem LocalVar.tokens_injective : Function.Injective LocalVar.tokens := by
  intro v v' h
  rcases v with ⟨names⟩
  rcases v' with ⟨names'⟩
  simp only [LocalVar.tokens, List.cons.injEq, true_and] at h
  rw [Names.tokens_injective h]

theorem Parameter.tokens_injective : Function.Injective Parameter.tokens := by
  intro p p' h
  rcases p with ⟨type, name⟩
  rcases p' with ⟨type', name'⟩
  simp only [Parameter.tokens, List.cons.injEq, Token.identifier.injEq, and_true] at h
  rw [TypeName.token_injective h.1, h.2]

theorem Parameter.listTokens_injective : Function.Injective Parameter.listTokens := by
  intro parameters parameters' h
  cases parameters with
  | nil =>
      cases parameters' with
      | nil => rfl
      | cons first' others' => cases h
  | cons first others =>
      cases parameters' with
      | nil => cases h
      | cons first' others' =>
          have hinjective : Function.Injective fun p : Parameter =>
              Token.symbol .comma :: p.tokens := by
            intro p p' hp
            injection hp with _ hp
            exact Parameter.tokens_injective hp
          rcases List.append_inj h rfl with ⟨hfirst, hothers⟩
          rw [Parameter.tokens_injective hfirst,
            flatMap_injective (n := 2) (fun _ => rfl) hinjective hothers]

/-!
# Subroutines and classes
-/

/-- A list of constructs goes on as long as one is opened. -/
theorem eq_of_flatMap_marks {α : Type} {marks : α -> List Mark} {nonterminal : Nonterminal}
    (hopens : forall a, (marks a).head? = some (.opening nonterminal))
    (hmarks : forall {a a' : α} {r r' : List Mark},
      marks a ++ r = marks a' ++ r' -> a = a' ∧ r = r')
    {items items' : List α} {r r' : List Mark}
    (hr : r.head? ≠ some (.opening nonterminal)) (hr' : r'.head? ≠ some (.opening nonterminal))
    (h : items.flatMap marks ++ r = items'.flatMap marks ++ r') : items = items' ∧ r = r' := by
  induction items generalizing items' with
  | nil =>
      cases items' with
      | nil => exact ⟨rfl, h⟩
      | cons a' rest' =>
          rw [List.flatMap_nil, List.nil_append] at h
          rw [h] at hr
          exact absurd (by simp [hopens]) hr
  | cons a rest ih =>
      cases items' with
      | nil =>
          rw [List.flatMap_nil, List.nil_append] at h
          rw [← h] at hr'
          exact absurd (by simp [hopens]) hr'
      | cons a' rest' =>
          rw [List.flatMap_cons, List.flatMap_cons, List.append_assoc, List.append_assoc] at h
          rcases hmarks h with ⟨ha, htail⟩
          rcases ih htail with ⟨hrest, htail⟩
          exact ⟨by rw [ha, hrest], htail⟩

theorem ClassVar.eq_of_marks {v v' : ClassVar} {r r' : List Mark}
    (h : v.marks ++ r = v'.marks ++ r') : v = v' ∧ r = r' := by
  rcases eq_of_enclosed_leaves h with ⟨htokens, hr⟩
  exact ⟨ClassVar.tokens_injective htokens, hr⟩

theorem LocalVar.eq_of_marks {v v' : LocalVar} {r r' : List Mark}
    (h : v.marks ++ r = v'.marks ++ r') : v = v' ∧ r = r' := by
  rcases eq_of_enclosed_leaves h with ⟨htokens, hr⟩
  exact ⟨LocalVar.tokens_injective htokens, hr⟩

theorem Parameter.eq_of_listMarks {parameters parameters' : List Parameter} {r r' : List Mark}
    (h : listMarks parameters ++ r = listMarks parameters' ++ r') :
    parameters = parameters' ∧ r = r' := by
  rcases eq_of_enclosed_leaves h with ⟨htokens, hr⟩
  exact ⟨Parameter.listTokens_injective htokens, hr⟩

theorem Body.eq_of_marks {body body' : Body} {r r' : List Mark}
    (h : body.marks ++ r = body'.marks ++ r') : body = body' ∧ r = r' := by
  rcases body with ⟨vars, block⟩
  rcases body' with ⟨vars', block'⟩
  simp only [Body.marks, enclose_append, List.cons_append, List.append_assoc, List.cons.injEq,
    true_and] at h
  rcases eq_of_flatMap_marks (fun _ => rfl) LocalVar.eq_of_marks (by simp [Block.marks, enclose])
    (by simp [Block.marks, enclose]) h with ⟨hvars, htail⟩
  rcases Block.eq_of_marks htail with ⟨hblock, htail⟩
  simp only [List.nil_append, List.cons.injEq, true_and] at htail
  exact ⟨by rw [hvars, hblock], htail⟩

theorem SubroutineKind.keyword_injective : Function.Injective SubroutineKind.keyword := by
  intro kind kind' h
  cases kind <;> cases kind' <;> simp_all [SubroutineKind.keyword]

/-- No type is written as the word for no result. -/
theorem TypeName.token_ne_void (type : TypeName) : type.token ≠ .keyword .void := by
  cases type <;> simp [TypeName.token]

theorem Subroutine.result_eq_of_token {s s' : Subroutine} (h : s.resultToken = s'.resultToken) :
    s.result = s'.result := by
  unfold Subroutine.resultToken at h
  cases hresult : s.result with
  | none =>
      cases hresult' : s'.result with
      | none => rfl
      | some type' =>
          rw [hresult, hresult'] at h
          exact absurd h.symm type'.token_ne_void
  | some type =>
      cases hresult' : s'.result with
      | none =>
          rw [hresult, hresult'] at h
          exact absurd h type.token_ne_void
      | some type' =>
          rw [hresult, hresult'] at h
          exact congrArg some (TypeName.token_injective h)

theorem Subroutine.eq_of_marks {s s' : Subroutine} {r r' : List Mark}
    (h : s.marks ++ r = s'.marks ++ r') : s = s' ∧ r = r' := by
  simp only [Subroutine.marks, enclose_append, List.cons_append, List.append_assoc,
    List.cons.injEq, Mark.leaf.injEq, Token.keyword.injEq, Token.identifier.injEq, true_and] at h
  rcases h with ⟨hkind, hresult, hname, htail⟩
  rcases Parameter.eq_of_listMarks htail with ⟨hparameters, htail⟩
  simp only [List.cons.injEq, true_and] at htail
  rcases Body.eq_of_marks htail with ⟨hbody, htail⟩
  injection htail with _ hr
  refine ⟨?_, hr⟩
  have hkind := SubroutineKind.keyword_injective hkind
  have hresult := Subroutine.result_eq_of_token hresult
  cases s
  cases s'
  simp_all

theorem Class.marks_injective : Function.Injective Class.marks := by
  intro unit unit' h
  rcases unit with ⟨name, vars, subroutines⟩
  rcases unit' with ⟨name', vars', subroutines'⟩
  simp only [Class.marks, enclose, List.cons_append, List.append_assoc, List.cons.injEq,
    Mark.leaf.injEq, Token.identifier.injEq, true_and] at h
  rcases h with ⟨hname, h⟩
  have hbehind : forall subroutines : List Subroutine,
      (subroutines.flatMap Subroutine.marks ++ Mark.leaf (.symbol .rightBrace) ::
        ([] ++ [Mark.closing .«class»])).head? ≠ some (.opening .classVarDec) := by
    intro subroutines
    cases subroutines <;> simp [Subroutine.marks, enclose]
  rcases eq_of_flatMap_marks (fun _ => rfl) ClassVar.eq_of_marks (hbehind _) (hbehind _) h with
    ⟨hvars, htail⟩
  rcases eq_of_flatMap_marks (fun _ => rfl) Subroutine.eq_of_marks (by simp) (by simp) htail with
    ⟨hsubroutines, _⟩
  rw [hname, hvars, hsubroutines]

/-- A class can be told from the tree that is written for it. -/
theorem Class.eq_of_lines {unit unit' : Class} {depth : Int}
    (h : linesFrom depth unit.marks = linesFrom depth unit'.marks) : unit = unit' := by
  have hmarks := congrArg (List.map Line.mark) h
  rw [map_mark_linesFrom, map_mark_linesFrom] at hmarks
  exact Class.marks_injective hmarks

theorem Class.eq_of_written {unit unit' : Class} {code code' : List Instr} {depth : Int}
    {written : Option (List Instr × List Line)}
    (h : written = some (code, linesFrom depth unit.marks))
    (h' : written = some (code', linesFrom depth unit'.marks)) : unit = unit' := by
  have hboth := Option.some.inj (h.symm.trans h')
  exact Class.eq_of_lines (congrArg Prod.snd hboth)

end Syntax
end Jack
