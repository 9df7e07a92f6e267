import Jack.Proofs.Acceptance.Expression
import Jack.Proofs.TreeInjectivity

/-!
# Tokens determine expressions

An expression can be read back from its tokens, if the token behind it does not go on with
it.  So no list of tokens belongs to two expressions, nor to two lists of arguments.  As for
marks, the statements speak of tokens that go on behind the tree.
-/

namespace Jack
namespace Syntax

open Compile

/-!
# What goes on with a tree
-/

theorem Binary.not_endsExpression (op : Binary) (rest : List Token) :
    ¬ EndsExpression (.symbol op.symbol :: rest) := by
  intro hends
  have hnone := hends.2 op.symbol rfl
  rw [op.binary?_symbol] at hnone
  cases hnone

theorem not_endsName_leftBracket (rest : List Token) :
    ¬ EndsName (.symbol .leftBracket :: rest) :=
  fun hends => hends.1 rfl

theorem not_endsName_leftParen (rest : List Token) :
    ¬ EndsName (.symbol .leftParen :: rest) :=
  fun hends => hends.2.1 rfl

theorem not_endsName_dot (rest : List Token) : ¬ EndsName (.symbol .dot :: rest) :=
  fun hends => hends.2.2 rfl

/-!
# Expressions
-/

mutual

theorem Expr.eq_of_tokens : forall {e e' : Expr} {r r' : List Token},
    EndsExpression r -> EndsExpression r' -> e.tokens ++ r = e'.tokens ++ r' ->
    e = e' ∧ r = r'
  | .mk first rest, .mk first' rest', r, r', hr, hr', h => by
      rw [Expr.tokens, Expr.tokens, List.append_assoc, List.append_assoc] at h
      rcases Term.eq_of_tokens (endsName_operations rest hr) (endsName_operations rest' hr') h
        with ⟨hfirst, htail⟩
      rcases Operations.eq_of_tokens hr hr' htail with ⟨hrest, hbehind⟩
      exact ⟨by rw [hfirst, hrest], hbehind⟩

theorem Operations.eq_of_tokens : forall {rest rest' : Operations} {r r' : List Token},
    EndsExpression r -> EndsExpression r' -> rest.tokens ++ r = rest'.tokens ++ r' ->
    rest = rest' ∧ r = r'
  | .nil, .nil, r, r', _, _, h => ⟨rfl, h⟩
  | .nil, .cons op _ _, r, r', hr, _, h => by
      have hbehind : r = .symbol op.symbol :: _ := h
      exact absurd (hbehind ▸ hr) (op.not_endsExpression _)
  | .cons op _ _, .nil, r, r', _, hr', h => by
      have hbehind : r' = .symbol op.symbol :: _ := h.symm
      exact absurd (hbehind ▸ hr') (op.not_endsExpression _)
  | .cons op operand rest, .cons op' operand' rest', r, r', hr, hr', h => by
      simp only [Operations.tokens, List.cons_append, List.append_assoc, List.cons.injEq,
        Token.symbol.injEq] at h
      rcases h with ⟨hop, htail⟩
      rcases Term.eq_of_tokens (endsName_operations rest hr) (endsName_operations rest' hr')
        htail with ⟨hoperand, htail⟩
      rcases Operations.eq_of_tokens hr hr' htail with ⟨hrest, hbehind⟩
      exact ⟨by rw [Binary.symbol_injective hop, hoperand, hrest], hbehind⟩

theorem Term.eq_of_tokens : forall {t t' : Term} {r r' : List Token},
    EndsName r -> EndsName r' -> t.tokens ++ r = t'.tokens ++ r' -> t = t' ∧ r = r'
  | .integer digits, t', r, r', _, _, h => by
      cases t' with
      | integer digits' => simpa [Term.tokens] using h
      | _ => simp [Term.tokens] at h
  | .string text, t', r, r', _, _, h => by
      cases t' with
      | string text' => simpa [Term.tokens] using h
      | _ => simp [Term.tokens] at h
  | .constant value, t', r, r', _, _, h => by
      cases t' with
      | constant value' =>
          simp only [Term.tokens, List.cons_append, List.nil_append, List.cons.injEq,
            Token.keyword.injEq] at h
          exact ⟨by rw [Constant.keyword_injective h.1], h.2⟩
      | _ => simp [Term.tokens] at h
  | .paren inner, t', r, r', _, _, h => by
      cases t' with
      | paren inner' =>
          simp only [Term.tokens, List.cons_append, List.append_assoc, List.cons.injEq,
            true_and] at h
          rcases Expr.eq_of_tokens (endsExpression_symbol _ (by decide))
            (endsExpression_symbol _ (by decide)) h with ⟨hinner, htail⟩
          injection htail with _ hbehind
          exact ⟨by rw [hinner], hbehind⟩
      | unary op operand => simp [Term.tokens, (Unary.symbol_ne_leftParen op).symm] at h
      | _ => simp [Term.tokens] at h
  | .unary op operand, t', r, r', hr, hr', h => by
      cases t' with
      | unary op' operand' =>
          simp only [Term.tokens, List.cons_append, List.cons.injEq, Token.symbol.injEq] at h
          rcases Term.eq_of_tokens hr hr' h.2 with ⟨hoperand, hbehind⟩
          exact ⟨by rw [Unary.symbol_injective h.1, hoperand], hbehind⟩
      | paren inner => simp [Term.tokens, Unary.symbol_ne_leftParen op] at h
      | _ => simp [Term.tokens] at h
  | .var name, t', r, r', hr, _, h => by
      cases t' with
      | var name' => simpa [Term.tokens] using h
      | element name' index' =>
          have hbehind : r = .symbol .leftBracket :: _ := (List.cons.inj h).2
          exact absurd (hbehind ▸ hr) (not_endsName_leftBracket _)
      | call name' arguments' =>
          have hbehind : r = .symbol .leftParen :: _ := (List.cons.inj h).2
          exact absurd (hbehind ▸ hr) (not_endsName_leftParen _)
      | callOn owner' name' arguments' =>
          have hbehind : r = .symbol .dot :: _ := (List.cons.inj h).2
          exact absurd (hbehind ▸ hr) (not_endsName_dot _)
      | _ => simp [Term.tokens] at h
  | .element name index, t', r, r', _, hr', h => by
      cases t' with
      | element name' index' =>
          simp only [Term.tokens, List.cons_append, List.append_assoc, List.cons.injEq, true_and,
            Token.identifier.injEq] at h
          rcases Expr.eq_of_tokens (endsExpression_symbol _ (by decide))
            (endsExpression_symbol _ (by decide)) h.2 with ⟨hindex, htail⟩
          injection htail with _ hbehind
          exact ⟨by rw [h.1, hindex], hbehind⟩
      | var name' =>
          have hbehind : r' = .symbol .leftBracket :: _ := (List.cons.inj h.symm).2
          exact absurd (hbehind ▸ hr') (not_endsName_leftBracket _)
      | _ => simp [Term.tokens] at h
  | .call name arguments, t', r, r', _, hr', h => by
      cases t' with
      | call name' arguments' =>
          simp only [Term.tokens, List.cons_append, List.append_assoc, List.cons.injEq, true_and,
            Token.identifier.injEq] at h
          rcases Arguments.eq_of_tokens rfl rfl h.2 with ⟨harguments, htail⟩
          injection htail with _ hbehind
          exact ⟨by rw [h.1, harguments], hbehind⟩
      | var name' =>
          have hbehind : r' = .symbol .leftParen :: _ := (List.cons.inj h.symm).2
          exact absurd (hbehind ▸ hr') (not_endsName_leftParen _)
      | _ => simp [Term.tokens] at h
  | .callOn owner name arguments, t', r, r', _, hr', h => by
      cases t' with
      | callOn owner' name' arguments' =>
          simp only [Term.tokens, List.cons_append, List.append_assoc, List.cons.injEq, true_and,
            Token.identifier.injEq] at h
          rcases Arguments.eq_of_tokens rfl rfl h.2.2 with ⟨harguments, htail⟩
          injection htail with _ hbehind
          exact ⟨by rw [h.1, h.2.1, harguments], hbehind⟩
      | var name' =>
          have hbehind : r' = .symbol .dot :: _ := (List.cons.inj h.symm).2
          exact absurd (hbehind ▸ hr') (not_endsName_dot _)
      | _ => simp [Term.tokens] at h

theorem Arguments.eq_of_tokens : forall {arguments arguments' : Arguments} {r r' : List Token},
    r.head? = some (.symbol .rightParen) -> r'.head? = some (.symbol .rightParen) ->
    arguments.tokens ++ r = arguments'.tokens ++ r' -> arguments = arguments' ∧ r = r'
  | .nil, .nil, r, r', _, _, h => ⟨rfl, h⟩
  | .nil, .cons first' rest', r, r', hr, _, h => by
      have hbehind : r = first'.tokens ++ (rest'.tokensAfterFirst ++ r') :=
        h.trans (List.append_assoc _ _ _)
      exact absurd (hbehind ▸ hr) (head_expr first' _).1
  | .cons first rest, .nil, r, r', _, hr', h => by
      have hbehind : r' = first.tokens ++ (rest.tokensAfterFirst ++ r) :=
        h.symm.trans (List.append_assoc _ _ _)
      exact absurd (hbehind ▸ hr') (head_expr first _).1
  | .cons first rest, .cons first' rest', r, r', hr, hr', h => by
      rw [Arguments.tokens, Arguments.tokens, List.append_assoc, List.append_assoc] at h
      rcases Expr.eq_of_tokens (endsExpression_arguments rest hr)
        (endsExpression_arguments rest' hr') h with ⟨hfirst, htail⟩
      rcases Arguments.eq_of_tokensAfterFirst hr hr' htail with ⟨hrest, hbehind⟩
      exact ⟨by rw [hfirst, hrest], hbehind⟩

theorem Arguments.eq_of_tokensAfterFirst :
    forall {arguments arguments' : Arguments} {r r' : List Token},
      r.head? = some (.symbol .rightParen) -> r'.head? = some (.symbol .rightParen) ->
      arguments.tokensAfterFirst ++ r = arguments'.tokensAfterFirst ++ r' ->
      arguments = arguments' ∧ r = r'
  | .nil, .nil, r, r', _, _, h => ⟨rfl, h⟩
  | .nil, .cons _ _, r, r', hr, _, h => by
      have hbehind : r = .symbol .comma :: _ := h
      rw [hbehind] at hr
      cases hr
  | .cons _ _, .nil, r, r', _, hr', h => by
      have hbehind : r' = .symbol .comma :: _ := h.symm
      rw [hbehind] at hr'
      cases hr'
  | .cons first rest, .cons first' rest', r, r', hr, hr', h => by
      simp only [Arguments.tokensAfterFirst, List.cons_append, List.append_assoc,
        List.cons.injEq, true_and] at h
      rcases Expr.eq_of_tokens (endsExpression_arguments rest hr)
        (endsExpression_arguments rest' hr') h with ⟨hfirst, htail⟩
      rcases Arguments.eq_of_tokensAfterFirst hr hr' htail with ⟨hrest, hbehind⟩
      exact ⟨by rw [hfirst, hrest], hbehind⟩

end

end Syntax
end Jack
