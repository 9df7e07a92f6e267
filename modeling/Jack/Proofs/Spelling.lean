import Jack.Proofs.Printing
import Jack.Proofs.Stream
import Mathlib.Data.List.Chain

/-!
# Texts and their tokens

A text is read without a fault exactly if it consists of written forms of tokens with layout
before, between and behind them, such that no token runs into what is behind it.  So tokens
that are written out, whatever the layout, are the tokens of the text, and a text that is
read is nothing but its tokens and layout.
-/

namespace Jack

open Text
open Reading

/-!
# Reading token after token
-/

/-- The text begins with these tokens in their written forms, with layout before each of
them. -/
def Lexes : List Char -> List Token -> List Char -> Prop
  | text, [], rest => text = rest
  | text, token :: tokens, rest =>
      exists gap after, IsLayout gap ∧ text = gap ++ (token.spelling ++ after) ∧ token.IsLexeme ∧
        token.EndsBefore after ∧ Lexes after tokens rest

theorem lexes_cons_iff {text rest : List Char} {token : Token} {tokens : List Token}
    (hreturn : '\r' ∉ text) :
    Lexes text (token :: tokens) rest ↔
      exists after, readToken text = .ok (some token) after ∧ Lexes after tokens rest := by
  constructor
  · rintro ⟨gap, after, hgap, htext, hlexeme, hends, hlexes⟩
    exact ⟨after, (Token.readToken_eq_some_iff hreturn).mpr ⟨gap, hgap, htext, hlexeme, hends⟩,
      hlexes⟩
  · rintro ⟨after, hread, hlexes⟩
    rcases (Token.readToken_eq_some_iff hreturn).mp hread with ⟨gap, hgap, htext, hlexeme, hends⟩
    exact ⟨gap, after, hgap, htext, hlexeme, hends, hlexes⟩

namespace Scanner

theorem run_lookAhead_eq_ok_iff {s s' : Scanner} (hopen : s.isOpen = true) :
    lookAhead.run s = .ok () s' ↔
      exists token after, readToken s.rest = .ok token after ∧
        s' = { s with rest := after, next := token, isOpen := token.isSome } := by
  change lookAhead s = _ ↔ _
  unfold lookAhead reading
  cases hread : readToken s.rest with
  | ok token after =>
      simp only [hopen, if_true, EStateM.Result.ok.injEq, true_and, and_assoc]
      constructor
      · rintro rfl
        exact ⟨token, after, rfl, rfl, rfl⟩
      · rintro ⟨_, _, rfl, rfl, rfl⟩
        rfl
  | error fault after => simp [hopen]

/-- The source is closed as soon as no token is ahead. -/
theorem isOpen_of_lookAhead {s s' : Scanner} (h : lookAhead.run s = .ok () s') :
    s'.isOpen = s'.hasNext := by
  have hlook : lookAhead s = .ok () s' := h
  unfold lookAhead at hlook
  split at hlook
  · cases hlook
    rfl
  · cases hlook

theorem tokens_eq_cons_iff {s : Scanner} {token : Token} {rest : List Token} :
    s.tokens = (token :: rest, none) ↔
      s.next = some token ∧ exists s', lookAhead.run { s with current := some token } = .ok () s' ∧
        s'.tokens = (rest, none) := by
  constructor
  · intro h
    rcases exists_advance_of_tokens h with ⟨hnext, s', hrun, _, htokens⟩
    rw [run_advance_of_next hnext] at hrun
    exact ⟨hnext, s', hrun, htokens⟩
  · rintro ⟨hnext, s', hrun, htokens⟩
    rw [← run_advance_of_next hnext] at hrun
    rw [tokens_of_advance hnext hrun, htokens]

/-- The tokens of an open source are those its text consists of. -/
theorem exists_tokens_iff {s : Scanner} {tokens : List Token} (hopen : s.isOpen = true)
    (hreturn : '\r' ∉ s.rest) :
    (exists s', lookAhead.run s = .ok () s' ∧ s'.tokens = (tokens, none)) ↔
      exists gap, IsLayout gap ∧ Lexes s.rest tokens gap := by
  induction tokens generalizing s with
  | nil =>
      constructor
      · rintro ⟨s', hlook, htokens⟩
        rcases (run_lookAhead_eq_ok_iff hopen).mp hlook with ⟨token, after, hread, rfl⟩
        have hnone : token = none := next_of_tokens_nil htokens
        subst hnone
        exact ⟨s.rest, ((readToken_eq_none_iff hreturn).mp hread).1, rfl⟩
      · rintro ⟨gap, hgap, rfl⟩
        have hread := (readToken_eq_none_iff hreturn).mpr ⟨hgap, rfl⟩
        exact ⟨_, (run_lookAhead_eq_ok_iff hopen).mpr ⟨none, [], hread, rfl⟩,
          tokens_of_next_none rfl⟩
  | cons token tokens ih =>
      simp only [lexes_cons_iff hreturn]
      constructor
      · rintro ⟨s', hlook, htokens⟩
        rcases (run_lookAhead_eq_ok_iff hopen).mp hlook with ⟨found, after, hread, rfl⟩
        rcases tokens_eq_cons_iff.mp htokens with ⟨hnext, hbehind⟩
        have hfound : found = some token := hnext
        subst hfound
        rcases (ih rfl (not_mem_of_readToken hreturn hread)).mp hbehind with ⟨gap, hgap, hlexes⟩
        exact ⟨gap, hgap, after, hread, hlexes⟩
      · rintro ⟨gap, hgap, after, hread, hlexes⟩
        refine ⟨_, (run_lookAhead_eq_ok_iff hopen).mpr ⟨some token, after, hread, rfl⟩, ?_⟩
        refine tokens_eq_cons_iff.mpr ⟨rfl, ?_⟩
        exact (ih rfl (not_mem_of_readToken hreturn hread)).mpr ⟨gap, hgap, hlexes⟩

end Scanner

theorem tokenize_eq_iff {text : String} {tokens : List Token} :
    tokenize text = (tokens, none) ↔
      exists gap, IsLayout gap ∧ Lexes (foldLineEnds text.toList) tokens gap := by
  rw [← Scanner.exists_tokens_iff (s := { rest := foldLineEnds text.toList }) rfl
    (not_mem_foldLineEnds _)]
  unfold tokenize Scanner.ofText
  change _ ↔ exists s', Scanner.lookAhead _ = _ ∧ _
  cases Scanner.lookAhead { rest := foldLineEnds text.toList } with
  | ok _ s => simp
  | error fault s => simp

/-!
# Tokens that run into each other
-/

namespace Token

theorem goesOnWith_of_isBlank (token : Token) {c : Char} (hc : isBlank c = true) :
    token.goesOnWith c = false := by
  have hword : isWordChar c = false := by
    cases hword : isWordChar c with
    | false => rfl
    | true =>
        rw [isBlank_of_isWordChar hword] at hc
        cases hc
  cases token with
  | keyword k => exact hword
  | symbol s =>
      have hslash : c ≠ '/' := by
        rintro rfl
        exact absurd hc (by decide)
      have hstar : c ≠ '*' := by
        rintro rfl
        exact absurd hc (by decide)
      simp [goesOnWith, hslash, hstar]
  | identifier name => exact hword
  | integer digits =>
      simp only [isWordChar, Bool.or_eq_false_iff] at hword
      exact hword.1.1
  | string text => rfl

theorem goesOnWith_slash {token : Token} (h : token ≠ .symbol .slash) :
    token.goesOnWith '/' = false := by
  cases token with
  | keyword k => exact isWordChar_symbol .slash
  | symbol s =>
      have hs : s ≠ .slash := fun hs => h (by rw [hs])
      simp [goesOnWith, hs]
  | identifier name => exact isWordChar_symbol .slash
  | integer digits =>
      have hslash : isDigit '/' = false := by decide +kernel
      exact hslash
  | string text => rfl

/-- Layout lets a token end, but for a slash before a comment. -/
theorem endsBefore_layout {token : Token} {gap : List Char} (hgap : IsLayout gap)
    (hnil : gap ≠ []) (hslash : token = .symbol .slash -> gap.head? ≠ some '/')
    (rest : List Char) : token.EndsBefore (gap ++ rest) := by
  intro c hc
  have hhead : gap.head? = some c := by
    cases gap with
    | nil => exact absurd rfl hnil
    | cons d gap => exact hc
  rcases hgap.head hhead with hblank | rfl
  · exact goesOnWith_of_isBlank token hblank
  · exact goesOnWith_slash fun htoken => hslash htoken hhead

def IsWord (token : Token) : Prop :=
  token.kind = .keyword ∨ token.kind = .identifier

/-- Without layout between them the two tokens are not read as they are: words and numerals
become one, or a comment opens. -/
def RunsInto (token next : Token) : Prop :=
  (token.IsWord ∧ (next.IsWord ∨ next.kind = .integer)) ∨
    (token.kind = .integer ∧ next.kind = .integer) ∨
      (token = .symbol .slash ∧ (next = .symbol .slash ∨ next = .symbol .star))

instance (token : Token) : Decidable token.IsWord :=
  inferInstanceAs (Decidable (_ ∨ _))

instance (token next : Token) : Decidable (token.RunsInto next) :=
  inferInstanceAs (Decidable (_ ∨ _ ∨ _))

/-- A token that begins with no character of a word is a symbol or a string. -/
theorem isWordChar_of_not_isWord {token : Token} (hword : ¬ token.IsWord)
    (hinteger : token.kind ≠ .integer) {c : Char} {others : List Char}
    (h : token.spelling = c :: others) : isWordChar c = false := by
  cases token with
  | keyword k => exact absurd (Or.inl rfl) hword
  | symbol s =>
      cases h
      exact isWordChar_symbol s
  | identifier name => exact absurd (Or.inr rfl) hword
  | integer digits => exact absurd rfl hinteger
  | string text =>
      cases h
      decide +kernel

theorem isDigit_of_kind_ne {token : Token} (hlexeme : token.IsLexeme)
    (hinteger : token.kind ≠ .integer) {c : Char} {others : List Char}
    (h : token.spelling = c :: others) : isDigit c = false := by
  cases token with
  | keyword k =>
      rcases (word_keyword k).1 with ⟨d, rest, hword, hdigit⟩
      rw [spelling, hword] at h
      cases h
      exact hdigit
  | symbol s =>
      have hc := isWordChar_symbol s
      cases h
      simp only [isWordChar, Bool.or_eq_false_iff] at hc
      exact hc.1.1
  | identifier name =>
      rcases hlexeme.exists_eq_cons with ⟨d, rest, hword, hdigit⟩
      rw [spelling, hword] at h
      cases h
      exact hdigit
  | integer digits => exact absurd rfl hinteger
  | string text =>
      cases h
      decide +kernel

theorem endsBefore_spelling {token next : Token} (hlexeme : next.IsLexeme)
    (h : ¬ token.RunsInto next) (rest : List Char) :
    token.EndsBefore (next.spelling ++ rest) := by
  rcases exists_spelling_eq_cons hlexeme with ⟨c, others, hspelling, _, hsymbol⟩
  rw [hspelling]
  rintro _ ⟨⟩
  simp only [RunsInto, not_or, not_and] at h
  rcases h with ⟨hword, hinteger, hslash⟩
  cases token with
  | keyword k =>
      have hnext := hword (Or.inl rfl)
      exact isWordChar_of_not_isWord hnext.1 hnext.2 hspelling
  | symbol s =>
      by_cases hs : s = .slash
      · subst hs
        have hnext := hslash rfl
        have hc : c ≠ '/' ∧ c ≠ '*' :=
          ⟨fun hc => hnext.1 (hsymbol .slash hc), fun hc => hnext.2 (hsymbol .star hc)⟩
        simp [goesOnWith, hc]
      · simp [goesOnWith, hs]
  | identifier name =>
      have hnext := hword (Or.inr rfl)
      exact isWordChar_of_not_isWord hnext.1 hnext.2 hspelling
  | integer digits => exact isDigit_of_kind_ne hlexeme (hinteger rfl) hspelling
  | string text => rfl

end Token

/-!
# Texts that are spelled out
-/

/-- A token and the layout behind it. -/
structure Piece where
  token : Token
  gap : List Char

namespace Piece

def text (piece : Piece) : List Char :=
  piece.token.spelling ++ piece.gap

/-- The text of all pieces, with layout before the first of them. -/
def spelledOut (lead : List Char) (pieces : List Piece) : List Char :=
  lead ++ pieces.flatMap text

/-- Every token has a written form and layout behind it, and nothing that follows is read as
a part of it. -/
def WellSpelled : List Piece -> Prop
  | [] => True
  | piece :: pieces =>
      (IsLayout piece.gap ∧ piece.token.IsLexeme ∧
        piece.token.EndsBefore (spelledOut piece.gap pieces)) ∧ WellSpelled pieces

theorem spelledOut_cons (lead : List Char) (piece : Piece) (pieces : List Piece) :
    spelledOut lead (piece :: pieces) =
      lead ++ (piece.token.spelling ++ spelledOut piece.gap pieces) := by
  simp [spelledOut, text]

theorem exists_lexes_of_wellSpelled {pieces : List Piece} (h : WellSpelled pieces)
    {lead : List Char} (hlead : IsLayout lead) :
    exists gap, IsLayout gap ∧ Lexes (spelledOut lead pieces) (pieces.map token) gap := by
  induction pieces generalizing lead with
  | nil => exact ⟨lead, hlead, by simp [spelledOut, Lexes]⟩
  | cons piece pieces ih =>
      rcases h with ⟨⟨hgap, hlexeme, hends⟩, hrest⟩
      rcases ih hrest hgap with ⟨last, hlast, hlexes⟩
      exact ⟨last, hlast, lead, _, hlead, spelledOut_cons lead piece pieces, hlexeme, hends, hlexes⟩

theorem exists_wellSpelled_of_lexes {text gap : List Char} {tokens : List Token}
    (hgap : IsLayout gap) (h : Lexes text tokens gap) :
    exists lead pieces, text = spelledOut lead pieces ∧ pieces.map token = tokens ∧
      IsLayout lead ∧ WellSpelled pieces := by
  induction tokens generalizing text with
  | nil =>
      have htext : text = gap := h
      subst htext
      exact ⟨text, [], by simp [spelledOut], rfl, hgap, trivial⟩
  | cons token tokens ih =>
      rcases h with ⟨lead, after, hlead, rfl, hlexeme, hends, hlexes⟩
      rcases ih hlexes with ⟨behind, pieces, rfl, rfl, hbehind, hpieces⟩
      have htext := spelledOut_cons lead ⟨token, behind⟩ pieces
      exact ⟨lead, ⟨token, behind⟩ :: pieces, htext.symm, rfl, hlead,
        ⟨hbehind, hlexeme, hends⟩, hpieces⟩

/-!
# Other line ends
-/

theorem endsBefore_foldLineEnds {token : Token} {rest : List Char} (h : token.EndsBefore rest) :
    token.EndsBefore (foldLineEnds rest) := by
  intro c hc
  rw [head?_foldLineEnds] at hc
  rcases Option.map_eq_some_iff.mp hc with ⟨d, hd, rfl⟩
  split
  · exact Token.goesOnWith_of_isBlank token rfl
  · exact h d hd

def foldGap (piece : Piece) : Piece :=
  { piece with gap := foldLineEnds piece.gap }

theorem foldLineEnds_spelledOut {pieces : List Piece} (h : WellSpelled pieces) (lead : List Char) :
    foldLineEnds (spelledOut lead pieces) =
      spelledOut (foldLineEnds lead) (pieces.map foldGap) := by
  induction pieces generalizing lead with
  | nil => simp [spelledOut]
  | cons piece pieces ih =>
      rcases h with ⟨⟨_, hlexeme, _⟩, hrest⟩
      have hhead : (piece.token.spelling ++ spelledOut piece.gap pieces).head? ≠ some '\n' := by
        rcases Token.exists_spelling_eq_cons hlexeme with ⟨c, others, hspelling, hblank, _⟩
        rw [hspelling]
        rintro hc
        cases hc
        exact absurd hblank (by decide)
      have hreturn : '\r' ∉ piece.token.spelling := fun hmem =>
        Token.ne_return_of_mem_spelling hlexeme hmem rfl
      rw [spelledOut_cons, foldLineEnds_append _ hhead, foldLineEnds_append_of_no_return hreturn,
        ih hrest, List.map_cons, spelledOut_cons]
      rfl

theorem WellSpelled.foldGap {pieces : List Piece} (h : WellSpelled pieces) :
    WellSpelled (pieces.map foldGap) := by
  induction pieces with
  | nil => trivial
  | cons piece pieces ih =>
      rcases h with ⟨⟨hgap, hlexeme, hends⟩, hrest⟩
      refine ⟨⟨hgap.foldLineEnds, hlexeme, ?_⟩, ih hrest⟩
      have hfold := endsBefore_foldLineEnds hends
      rwa [foldLineEnds_spelledOut hrest] at hfold

/-- Tokens that are spelled out are the tokens of the text. -/
theorem tokenize_of_wellSpelled {pieces : List Piece} (h : WellSpelled pieces)
    {lead : List Char} (hlead : IsLayout lead) :
    tokenize (String.ofList (spelledOut lead pieces)) = (pieces.map token, none) := by
  rw [tokenize_eq_iff, String.toList_ofList, foldLineEnds_spelledOut h]
  have hlexes := exists_lexes_of_wellSpelled h.foldGap hlead.foldLineEnds
  rwa [List.map_map] at hlexes

/-- Tokens with layout between those that would run into each other are well spelled. -/
theorem wellSpelled_of_apart {pieces : List Piece}
    (hgaps : forall piece, piece ∈ pieces -> IsLayout piece.gap)
    (hlexemes : forall piece, piece ∈ pieces -> piece.token.IsLexeme)
    (hslash : forall piece, piece ∈ pieces -> piece.token = .symbol .slash ->
      piece.gap.head? ≠ some '/')
    (hapart : pieces.IsChain fun piece next =>
      piece.gap = [] -> ¬ piece.token.RunsInto next.token) : WellSpelled pieces := by
  induction pieces with
  | nil => trivial
  | cons piece pieces ih =>
      have hrest := ih (fun p hp => hgaps p (List.mem_cons_of_mem _ hp))
        (fun p hp => hlexemes p (List.mem_cons_of_mem _ hp))
        (fun p hp => hslash p (List.mem_cons_of_mem _ hp)) hapart.tail
      have hgap := hgaps piece List.mem_cons_self
      refine ⟨⟨hgap, hlexemes piece List.mem_cons_self, ?_⟩, hrest⟩
      by_cases hnil : piece.gap = []
      · rw [hnil]
        cases pieces with
        | nil =>
            intro c hc
            cases hc
        | cons next pieces =>
            rw [spelledOut_cons, List.nil_append]
            exact Token.endsBefore_spelling (hlexemes next (by simp)) (hapart.rel hnil) _
      · exact Token.endsBefore_layout hgap hnil (hslash piece List.mem_cons_self) _

end Piece

namespace Token

/-- Tokens with a blank after each of them. -/
def print (tokens : List Token) : List Char :=
  tokens.flatMap fun token => token.spelling ++ [' ']

theorem tokenize_print {tokens : List Token}
    (h : forall token, token ∈ tokens -> token.IsLexeme) :
    tokenize (String.ofList (print tokens)) = (tokens, none) := by
  have hblank : IsLayout [' '] := .blank rfl .nil
  have hspelled : Piece.WellSpelled (tokens.map fun token => ⟨token, [' ']⟩) := by
    induction tokens with
    | nil => trivial
    | cons token tokens ih =>
        refine ⟨⟨hblank, h token List.mem_cons_self, ?_⟩, ?_⟩
        · exact endsBefore_layout hblank (by simp) (by simp) _
        · exact ih fun token htoken => h token (List.mem_cons_of_mem _ htoken)
  have hread := Piece.tokenize_of_wellSpelled hspelled IsLayout.nil
  rw [Piece.spelledOut, List.nil_append, List.flatMap_map, List.map_map] at hread
  simpa [print, Piece.text, Function.comp_def] using hread

end Token

/-!
# Delivering tokens
-/

namespace Scanner

/-- The scanner moves on from token to token. -/
inductive Delivers : Scanner -> List Token -> Scanner -> Prop where
  | nil (s : Scanner) : Delivers s [] s
  | cons {s s1 s2 : Scanner} {token : Token} {tokens : List Token} :
      advance.run s = .ok () s1 -> s1.current = some token -> Delivers s1 tokens s2 ->
      Delivers s (token :: tokens) s2

theorem exists_delivers {s : Scanner} {tokens : List Token} (hsource : s.isOpen = s.hasNext)
    (h : s.tokens = (tokens, none)) :
    exists s', s.Delivers tokens s' ∧ s'.hasNext = false ∧ s'.isOpen = false := by
  induction tokens generalizing s with
  | nil =>
      have hnext : s.hasNext = false := by simp [hasNext, next_of_tokens_nil h]
      exact ⟨s, .nil s, hnext, by rw [hsource, hnext]⟩
  | cons token tokens ih =>
      rcases exists_advance_of_tokens h with ⟨hnext, s1, hrun, hcurrent, htokens⟩
      have hlook := hrun
      rw [run_advance_of_next hnext] at hlook
      rcases ih (isOpen_of_lookAhead hlook) htokens with ⟨s', hdelivers, hend⟩
      exact ⟨s', .cons hrun hcurrent hdelivers, hend⟩

/-- The scanner of a text without a fault delivers its tokens and closes the source. -/
theorem exists_delivers_of_tokenize {text : String} {tokens : List Token}
    (h : tokenize text = (tokens, none)) :
    exists s s', ofText text = .ok s ∧ s.Delivers tokens s' ∧ s'.hasNext = false ∧
      s'.isOpen = false := by
  cases hsource : ofText text with
  | error fault =>
      rw [tokenize, hsource] at h
      cases h
  | ok s =>
      rw [tokenize, hsource] at h
      have hopen : s.isOpen = s.hasNext := by
        unfold ofText at hsource
        split at hsource
        · next hlook =>
            cases hsource
            exact isOpen_of_lookAhead hlook
        · cases hsource
      rcases exists_delivers hopen h with ⟨s', hdelivers⟩
      exact ⟨s, s', rfl, hdelivers⟩

end Scanner

/-- Tokens that are written out are read again, whatever the layout before, between and
behind them. -/
theorem tokenize_spelledOut {lead : List Char} {pieces : List Piece} (hlead : IsLayout lead)
    (hgaps : forall piece, piece ∈ pieces -> IsLayout piece.gap)
    (hlexemes : forall piece, piece ∈ pieces -> piece.token.IsLexeme)
    (hslash : forall piece, piece ∈ pieces -> piece.token = .symbol .slash ->
      piece.gap.head? ≠ some '/')
    (hapart : pieces.IsChain fun piece next =>
      piece.gap = [] -> ¬ piece.token.RunsInto next.token) :
    tokenize (String.ofList (Piece.spelledOut lead pieces)) = (pieces.map Piece.token, none) ∧
      exists s s', Scanner.ofText (String.ofList (Piece.spelledOut lead pieces)) = .ok s ∧
        s.Delivers (pieces.map Piece.token) s' ∧ s'.hasNext = false ∧ s'.isOpen = false := by
  have hspelled := Piece.wellSpelled_of_apart hgaps hlexemes hslash hapart
  have hread := Piece.tokenize_of_wellSpelled hspelled hlead
  exact ⟨hread, Scanner.exists_delivers_of_tokenize hread⟩

namespace Piece

/-- An assignment with comments, written with as little layout as can be. -/
def assignment : List Piece :=
  [⟨.keyword .«let», [' ']⟩, ⟨.identifier "x", []⟩, ⟨.symbol .equal, []⟩, ⟨.string "a // b", []⟩,
    ⟨.symbol .slash, ['\t']⟩, ⟨.integer "12", ['/', '*', '*', '*', '/']⟩,
    ⟨.symbol .semicolon, ['/', '/', '"', '\r', '\n']⟩]

theorem isLayout_assignment : forall piece, piece ∈ assignment -> IsLayout piece.gap := by
  have hstar : ¬ ['*', '/'] <:+: ['*'] := by decide
  have hquote : forall c, c ∈ ['"'] -> ¬ IsLineEnd c := by simp [IsLineEnd]
  have hblock : IsLayout ['/', '*', '*', '*', '/'] := .block hstar .nil
  have hline : IsLayout ['/', '/', '"', '\r', '\n'] :=
    .line hquote (Or.inr rfl) (.blank rfl .nil)
  simp only [assignment, List.forall_mem_cons]
  exact ⟨.blank rfl .nil, .nil, .nil, .nil, .blank rfl .nil, hblock, hline,
    fun _ hnil => absurd hnil List.not_mem_nil⟩

theorem isLexeme_assignment : forall piece, piece ∈ assignment -> piece.token.IsLexeme := by
  decide +kernel

theorem slash_assignment : forall piece, piece ∈ assignment -> piece.token = .symbol .slash ->
    piece.gap.head? ≠ some '/' := by
  decide

theorem isChain_assignment : assignment.IsChain fun piece next =>
    piece.gap = [] -> ¬ piece.token.RunsInto next.token := by
  decide

end Piece

theorem tokenize_spelledOut_assignment :
    tokenize (String.ofList (Piece.spelledOut ['\n'] Piece.assignment)) =
        ([.keyword .«let», .identifier "x", .symbol .equal, .string "a // b", .symbol .slash,
          .integer "12", .symbol .semicolon], none) ∧
      exists s s', Scanner.ofText (String.ofList (Piece.spelledOut ['\n'] Piece.assignment)) =
          .ok s ∧
        s.Delivers (Piece.assignment.map Piece.token) s' ∧ s'.hasNext = false ∧
          s'.isOpen = false :=
  tokenize_spelledOut (.blank rfl .nil) Piece.isLayout_assignment Piece.isLexeme_assignment
    Piece.slash_assignment Piece.isChain_assignment

/-- A text that is read without a fault is nothing but its tokens and layout. -/
theorem exists_spelledOut_of_tokenize {text : String} {tokens : List Token}
    (h : tokenize text = (tokens, none)) :
    '\r' ∉ foldLineEnds text.toList ∧
      exists lead pieces, foldLineEnds text.toList = Piece.spelledOut lead pieces ∧
        pieces.map Piece.token = tokens ∧ IsLayout lead ∧ Piece.WellSpelled pieces := by
  rcases tokenize_eq_iff.mp h with ⟨gap, hgap, hlexes⟩
  exact ⟨not_mem_foldLineEnds _, Piece.exists_wellSpelled_of_lexes hgap hlexes⟩

theorem exists_spelledOut_assignment :
    exists lead pieces,
      foldLineEnds (Piece.spelledOut ['\r'] Piece.assignment) = Piece.spelledOut lead pieces ∧
        pieces.map Piece.token = Piece.assignment.map Piece.token ∧ IsLayout lead ∧
          Piece.WellSpelled pieces := by
  have hspelled := Piece.wellSpelled_of_apart Piece.isLayout_assignment
    Piece.isLexeme_assignment Piece.slash_assignment Piece.isChain_assignment
  have hlead : IsLayout ['\r'] := .blank rfl .nil
  have hread := Piece.tokenize_of_wellSpelled hspelled hlead
  have hform := (exists_spelledOut_of_tokenize hread).2
  rwa [String.toList_ofList] at hform

end Jack
