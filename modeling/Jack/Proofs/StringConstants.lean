import Mathlib.Data.List.Basic
import Jack.Proofs.Printing
import Jack.Proofs.Recognition.Expression

/-!
# String constants

A string constant is written twice: to the tree, where the characters of markup have to be
escaped, and to the code, where they must not be.  The escaped text goes to both.  So the code
builds another string than the one in the source if a character of markup is in it.
-/

namespace Jack

/-!
# Escaped texts
-/

namespace Text

theorem length_escapeChar (c : Char) : (escapeChar c).length =
    1 + 4 * [c].count '&' + 3 * [c].count '<' + 3 * [c].count '>' := by
  unfold escapeChar
  split
  · next hamp =>
      subst hamp
      rfl
  · split
    · next hless =>
        subst hless
        rfl
    · split
      · next hgreater =>
          subst hgreater
          rfl
      · simp [*]

theorem length_flatMap_escapeChar (chars : List Char) : (chars.flatMap escapeChar).length =
    chars.length + 4 * chars.count '&' + 3 * chars.count '<' + 3 * chars.count '>' := by
  induction chars with
  | nil => rfl
  | cons c rest ih =>
      have hcount : forall d, ([c] ++ rest).count d = [c].count d + rest.count d :=
        fun _ => List.count_append
      rw [List.singleton_append] at hcount
      rw [List.flatMap_cons, List.length_append, length_escapeChar, ih, List.length_cons]
      rw [hcount, hcount, hcount]
      omega

/-- An ampersand becomes five characters, and an angle bracket becomes four. -/
theorem length_escape (text : String) :
    (escape text).length = text.length + 4 * text.toList.count '&' +
      3 * text.toList.count '<' + 3 * text.toList.count '>' := by
  rw [escape, String.length_ofList, length_flatMap_escapeChar, String.length_toList]

theorem escape_eq_self {text : String}
    (h : '&' ∉ text.toList ∧ '<' ∉ text.toList ∧ '>' ∉ text.toList) : escape text = text := by
  have hsingle : forall c, c ∈ text.toList -> escapeChar c = [c] := by
    intro c hc
    have hamp : c ≠ '&' := fun heq => h.1 (heq ▸ hc)
    have hless : c ≠ '<' := fun heq => h.2.1 (heq ▸ hc)
    have hgreater : c ≠ '>' := fun heq => h.2.2 (heq ▸ hc)
    simp only [escapeChar, hamp, hless, hgreater, if_false]
  rw [escape, List.flatMap_congr hsingle, List.flatMap_singleton', String.ofList_toList]

/-- A text is as long as its escaped form only if nothing in it is escaped. -/
theorem not_mem_of_length_escape {text : String} (h : (escape text).length = text.length) :
    '&' ∉ text.toList ∧ '<' ∉ text.toList ∧ '>' ∉ text.toList := by
  rw [length_escape] at h
  have hamp : text.toList.count '&' = 0 := by omega
  have hless : text.toList.count '<' = 0 := by omega
  have hgreater : text.toList.count '>' = 0 := by omega
  exact ⟨List.count_eq_zero.mp hamp, List.count_eq_zero.mp hless, List.count_eq_zero.mp hgreater⟩

end Text

/-!
# Lines that build a string
-/

/-- The lines that build a string from its length and its characters. -/
def stringLines (text : String) : List String :=
  ("push constant " ++ toString text.length) :: "call String.new 1" ::
    text.toList.flatMap fun c =>
      ["push constant " ++ toString c.toNat, "call String.appendChar 2"]

theorem length_stringLines (text : String) :
    (stringLines text).length = 2 + text.length * 2 := by
  rw [stringLines, List.length_cons, List.length_cons, List.length_flatMap]
  simp only [List.length_cons, List.length_nil, List.map_const', List.sum_replicate_nat,
    String.length_toList]
  omega

theorem map_text_stringCode (text : String) :
    (Compile.stringCode text).map Instr.text = stringLines text := by
  rw [Compile.stringCode, List.map_cons, List.map_cons, List.map_flatMap]
  rfl

/-- The lines for an escaped text are those for the text only if nothing in it is escaped. -/
theorem stringLines_escape_eq_iff {text : String} :
    stringLines (Text.escape text) = stringLines text ↔
      '&' ∉ text.toList ∧ '<' ∉ text.toList ∧ '>' ∉ text.toList := by
  constructor
  · intro h
    have hlength := congrArg List.length h
    rw [length_stringLines, length_stringLines] at hlength
    apply Text.not_mem_of_length_escape
    omega
  · intro h
    rw [Text.escape_eq_self h]

theorem Tree.text_leaf_string (text : String) :
    (Mark.leaf (.string text)).text =
      "<stringConstant> " ++ Text.escape text ++ " </stringConstant>" := by
  have hbefore : openingText "stringConstant" ++ " " = "<stringConstant> " := by decide
  have hbehind : " " ++ closingText "stringConstant" = " </stringConstant>" := by decide
  show openingText "stringConstant" ++ " " ++ Text.escape text ++ " " ++
    closingText "stringConstant" = _
  rw [hbefore, String.append_assoc, hbehind]

/-!
# Reading and compiling a constant
-/

namespace Reading

open Text

theorem readToken_quote (body : List Char) :
    readToken (doubleQuote :: body) = readLexeme (doubleQuote :: body) := by
  have hblank : isBlank doubleQuote = false := by decide
  have hslash : doubleQuote ≠ '/' := by decide
  unfold readToken
  rw [skipLayout]
  simp only [hblank, Bool.false_eq_true, if_false, hslash, false_and]

/-- What stands between two quotes is the string, if it has no quote and no line end. -/
theorem readToken_quoted_iff {text : String} {rest : List Char} :
    readToken (doubleQuote :: (text.toList ++ doubleQuote :: rest)) =
        .ok (some (.string text)) rest ↔
      doubleQuote ∉ text.toList ∧ '\n' ∉ text.toList := by
  have hread : readToken (doubleQuote :: (text.toList ++ doubleQuote :: rest)) =
        .ok (some (.string text)) rest ↔
      readString (doubleQuote :: (text.toList ++ doubleQuote :: rest)) = .ok text rest := by
    rw [readToken_quote]
    unfold readLexeme
    simp only [if_true]
    cases readString (doubleQuote :: (text.toList ++ doubleQuote :: rest)) with
    | ok found after => simp
    | error fault after => simp
  rw [hread, readString_eq_ok_iff]
  constructor
  · rintro ⟨_, hall⟩
    constructor
    · intro hquote
      exact absurd (hall _ hquote) (by decide)
    · intro hline
      exact absurd (hall _ hline) (by decide)
  · rintro ⟨hquote, hline⟩
    refine ⟨rfl, fun c hc => ?_⟩
    have hneQuote : c ≠ doubleQuote := fun heq => hquote (heq ▸ hc)
    have hneLine : c ≠ '\n' := fun heq => hline (heq ▸ hc)
    simp [inString, hneQuote, hneLine]

end Reading

namespace Compile

section

variable {c : Compiler} {text : String}

theorem run_takeString_of_current (hcurrent : c.scanner.current = some (.string text)) :
    takeString.run c =
      (take (.string text) >>= fun _ => pure (Text.escape text)).run
        (c.extend c.scanner [] (stringCode (Text.escape text)) 0) := by
  unfold takeString
  rw [run_bind_of_ok (run_current c), hcurrent]
  exact run_bind_of_ok (run_emitAll _ c)

/-- A token that is taken becomes a leaf even if the scanner cannot move on. -/
theorem run_take_cases {token : Token} (hopen : c.treeOpen = true)
    (hcurrent : c.scanner.current = some token) :
    (exists c', (take token).run c = .ok () c' ∧ c.Yields [.leaf token] [] 0 c') ∨
      exists fault scanner, c.scanner.hasNext = true ∧
        Scanner.advance.run c.scanner = .error fault scanner ∧
        (take token).run c = .error fault (c.extend scanner [.leaf token] [] 0) := by
  cases htake : (take token).run c with
  | ok _ c' => exact Or.inl ⟨c', rfl, ((run_take_eq_ok_iff hcurrent).mp htake).2⟩
  | error fault c' =>
      rcases exists_scanner_of_take_error hopen htake with ⟨scanner, hnext, hadvance, rfl⟩
      exact Or.inr ⟨fault, scanner, hnext, hadvance, rfl⟩

theorem run_takeString_cases (hopen : c.treeOpen = true)
    (hcurrent : c.scanner.current = some (.string text)) :
    (exists c', takeString.run c = .ok (Text.escape text) c' ∧
        c.Yields [.leaf (.string text)] (stringCode (Text.escape text)) 0 c') ∨
      exists fault scanner, c.scanner.hasNext = true ∧
        Scanner.advance.run c.scanner = .error fault scanner ∧
        takeString.run c = .error fault
          (c.extend scanner [.leaf (.string text)] (stringCode (Text.escape text)) 0) := by
  rw [run_takeString_of_current hcurrent]
  generalize stringCode (Text.escape text) = code
  have hcode : c.Yields [] code 0 (c.extend c.scanner [] code 0) :=
    ⟨c.scanner, Scanner.Takes.nil _, rfl⟩
  rcases run_take_cases (c := c.extend c.scanner [] code 0) hopen hcurrent with
    ⟨c', htake, hleaf⟩ | ⟨fault, scanner, hnext, hadvance, htake⟩
  · refine Or.inl ⟨c', run_bind_of_ok htake, ?_⟩
    simpa using hcode.trans hleaf
  · refine Or.inr ⟨fault, scanner, hnext, hadvance, ?_⟩
    rw [Compiler.extend_extend] at htake
    rw [run_bind_eq_error_iff.mpr (Or.inl htake)]
    simp

theorem run_operandWithin_of_current (n : Nat)
    (hcurrent : c.scanner.current = some (.string text)) :
    (operandWithin (n + 1)).run c = (takeString >>= fun _ => pure none).run c := by
  rw [operandWithin, run_bind_of_ok (run_current c), hcurrent]

/-- The construct stays open if the scanner cannot move on. -/
theorem run_termWithin_cases (n : Nat) (hopen : c.treeOpen = true)
    (hcurrent : c.scanner.current = some (.string text)) :
    (exists c', (termWithin (n + 2)).run c = .ok none c' ∧
        c.Yields [.opening .term, .leaf (.string text), .closing .term]
          (stringCode (Text.escape text)) 0 c') ∨
      exists fault scanner, c.scanner.hasNext = true ∧
        Scanner.advance.run c.scanner = .error fault scanner ∧
        (termWithin (n + 2)).run c = .error fault
          (c.extend scanner [.opening .term, .leaf (.string text)]
            (stringCode (Text.escape text)) 0) := by
  have hopening : c.Yields [.opening .term] [] 0 (c.extend c.scanner [.opening .term] [] 0) :=
    ⟨c.scanner, Scanner.Takes.nil _, rfl⟩
  have henter := run_enter_eq_ok_iff.mpr ⟨hopen, hopening⟩
  have hoperand := run_operandWithin_of_current
    (c := c.extend c.scanner [.opening .term] [] 0) n hcurrent
  rw [termWithin, run_bind_of_ok henter]
  rcases run_takeString_cases (c := c.extend c.scanner [.opening .term] [] 0) hopen hcurrent with
    ⟨d, hstring, hleaf⟩ | ⟨fault, scanner, hnext, hadvance, hstring⟩
  · rw [run_bind_of_ok hstring] at hoperand
    rw [run_bind_of_ok hoperand]
    have hclosing : d.Yields [.closing .term] [] 0 (d.extend d.scanner [.closing .term] [] 0) :=
      ⟨d.scanner, Scanner.Takes.nil _, rfl⟩
    have hleave := run_leave_eq_ok_iff.mpr ⟨hleaf.treeOpen.trans hopen, hclosing⟩
    refine Or.inl ⟨_, run_bind_of_ok hleave, ?_⟩
    simpa using hopening.trans (hleaf.trans hclosing)
  · rw [Compiler.extend_extend, List.nil_append] at hstring
    rw [run_bind_eq_error_iff.mpr (Or.inl hstring)] at hoperand
    exact Or.inr
      ⟨fault, scanner, hnext, hadvance, run_bind_eq_error_iff.mpr (Or.inl hoperand)⟩

/-- The routines for a term: the public one, and those with a limit that they do not reach. -/
def IsTermRoutine (routine : CompileM (Option String)) : Prop :=
  routine = term ∨ exists n, routine = termWithin (n + 2)

theorem IsTermRoutine.exists_run_eq {routine : CompileM (Option String)}
    (h : IsTermRoutine routine) (c : Compiler) :
    exists n, routine.run c = (termWithin (n + 2)).run c := by
  rcases h with rfl | ⟨n, rfl⟩
  · refine ⟨4 * c.scanner.rest.length + 14, ?_⟩
    unfold term
    exact run_bind_of_ok (run_bound c)
  · exact ⟨n, rfl⟩

end

end Compile

open Compile
open Text

/-- What stands between two quotes is a string constant, if it has no quote and no line end.
A term that is a string constant always gets written to the code and to the tree, and it is
left unless the scanner cannot move on.  The leaf holds the escaped text.  The lines of code
build the escaped text as well, so they are those that build the text if and only if no
character of it is escaped. -/
theorem string_constant_builds_escaped_text {c : Compiler} {text : String}
    {routine : CompileM (Option String)} (hroutine : IsTermRoutine routine)
    (hopen : c.treeOpen = true) (hcurrent : c.scanner.current = some (.string text)) :
    (forall rest, Reading.readToken (doubleQuote :: (text.toList ++ doubleQuote :: rest)) =
        .ok (some (.string text)) rest ↔ doubleQuote ∉ text.toList ∧ '\n' ∉ text.toList) ∧
      exists (c' : Compiler) (code : List Instr) (last : List Tree.Mark),
        (routine.run c = .ok none c' ∧ last = [.closing .term] ∨
          exists fault scanner, c.scanner.hasNext = true ∧
            Scanner.advance.run c.scanner = .error fault scanner ∧
            routine.run c = .error fault c' ∧ last = []) ∧
        c'.code = c.code ++ code.toArray ∧
        c'.tree = c.tree ++ (Tree.linesFrom c.depth
          (.opening .term :: .leaf (.string text) :: last)).toArray ∧
        (Tree.Mark.leaf (.string text)).text =
          "<stringConstant> " ++ escape text ++ " </stringConstant>" ∧
        code.map Instr.text = stringLines (escape text) ∧
        (code.map Instr.text = stringLines text ↔
          '&' ∉ text.toList ∧ '<' ∉ text.toList ∧ '>' ∉ text.toList) := by
  have hleaf := Tree.text_leaf_string text
  have hlines := map_text_stringCode (escape text)
  have hsame : (stringCode (escape text)).map Instr.text = stringLines text ↔
      '&' ∉ text.toList ∧ '<' ∉ text.toList ∧ '>' ∉ text.toList := by
    rw [hlines]
    exact stringLines_escape_eq_iff
  refine ⟨fun rest => Reading.readToken_quoted_iff, ?_⟩
  rcases hroutine.exists_run_eq c with ⟨n, hrun⟩
  rw [hrun]
  rcases run_termWithin_cases n hopen hcurrent with
    ⟨c', hterm, hyields⟩ | ⟨fault, scanner, hnext, hadvance, hterm⟩
  · exact ⟨c', _, _, Or.inl ⟨hterm, rfl⟩, hyields.code, hyields.tree, hleaf, hlines, hsame⟩
  · exact ⟨_, _, _, Or.inr ⟨fault, scanner, hnext, hadvance, hterm, rfl⟩, rfl, rfl, hleaf,
      hlines, hsame⟩

/-- A compiler at a constant that is a less sign. -/
def Compiler.atLessSign : Compiler where
  scanner := { rest := [], isOpen := false, current := some (.string "<") }
  treeOpen := true

/-- The code builds a string of four characters. -/
theorem less_sign_builds_four_characters :
    Compiler.atLessSign.treeOpen = true ∧
      Compiler.atLessSign.scanner.current = some (.string "<") ∧
      exists c', term.run Compiler.atLessSign = .ok none c' ∧
        c'.code.toList.map Instr.text = stringLines "&lt;" ∧
        c'.code.toList.map Instr.text ≠ stringLines "<" ∧
        c'.tree.toList.map (fun line => line.mark.text) =
          ["<term>", "<stringConstant> &lt; </stringConstant>", "</term>"] := by
  rcases string_constant_builds_escaped_text (c := Compiler.atLessSign) (Or.inl rfl) rfl rfl with
    ⟨_, c', code, last, hrun, hcode, htree, _, hlines, hsame⟩
  have hwritten : c'.code.toList = code := by
    rw [hcode]
    simp [Compiler.atLessSign]
  rcases hrun with ⟨hrun, rfl⟩ | ⟨_, _, hnext, _⟩
  · refine ⟨rfl, rfl, c', hrun, ?_, ?_, ?_⟩
    · rw [hwritten, hlines]
      decide
    · rw [hwritten]
      exact fun heq => (hsame.mp heq).2.1 (by decide)
    · rw [htree]
      decide
  · cases hnext

def lessSignText : String :=
  "class A \x7b function String f() \x7b return \x22<\x22; \x7d \x7d"

/-- A source with a less sign as its only string. -/
theorem less_sign_compiled_escaped :
    .string "<" ∈ (tokenize lessSignText).1 ∧
      (({} : Compiler).compile lessSignText).fault = none ∧
      (({} : Compiler).compile lessSignText).written.map (fun out => out.1.map Instr.text) =
        some ("function A.f 0" :: (stringLines "&lt;" ++ ["return"])) ∧
      stringLines "<" = ["push constant 1", "call String.new 1", "push constant 60",
        "call String.appendChar 2"] := by
  decide +kernel

end Jack
