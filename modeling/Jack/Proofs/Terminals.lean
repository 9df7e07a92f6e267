import Jack.Token.Listing
import Jack.Proofs.Calls.Routines
import Jack.Proofs.Sources

/-!
# Leaves of the tree and listed tokens

The leaves of the tree that a run writes are compared with the lines of the listing of
the same source.  The leaves begin the listing, or they are the whole listing with its
last line over again.  This holds of runs that fail as well.
-/

namespace Jack

/-!
# Terminal lines
-/

/-- The tag that listings have for a tag of the tree. -/
def Listing.renamed (tag : String) : String :=
  if tag = "identifierName" then "identifier" else tag

/-- A leaf of the tree without its indentation, under the tag that listings have. -/
def Tree.Line.terminal? : Tree.Line -> Option String
  | ⟨_, .leaf token⟩ =>
      some (leafText (Listing.renamed (leafTag token)) token.shown ++ "\n")
  | _ => none

/-- The leaves among some lines of the tree, as lines of a listing. -/
def Tree.terminals (lines : List Tree.Line) : List String :=
  lines.filterMap Tree.Line.terminal?

theorem Listing.renamed_leafTag (token : Token) :
    renamed (Tree.leafTag token) = tag token := by
  cases token <;> rfl

theorem Tree.terminals_append (first second : List Tree.Line) :
    terminals (first ++ second) = terminals first ++ terminals second :=
  List.filterMap_append

theorem Tree.terminals_linesFrom (depth : Int) (marks : List Tree.Mark) :
    terminals (linesFrom depth marks) = (leaves marks).map Listing.line := by
  induction marks generalizing depth with
  | nil => rfl
  | cons mark rest ih =>
      cases mark with
      | opening nonterminal => exact ih (depth + 1)
      | closing nonterminal => exact ih (depth + -1)
      | leaf token =>
          have hleaf : Line.terminal? ⟨depth, .leaf token⟩ = some (Listing.line token) := by
            simp [Line.terminal?, Listing.line, Listing.renamed_leafTag]
          have hrest : (linesFrom depth rest).filterMap Line.terminal? = _ := ih depth
          simp [terminals, linesFrom, leaves, hleaf, hrest]

/-!
# Listings
-/

/-- The lines of the tokens in the listing of a text. -/
def Listing.tokenLines (text : String) : List String :=
  (tokenize text).1.map line

/-- A source that is taken up has a listing, which ends in its tokens or in the line that
closes it. -/
theorem Listing.ofText_of_load {text : String} {c c1 : Compiler}
    (h : (Compile.load text).run c = .ok () c1) :
    exists ending, (ofText text).1 =
        Tree.openingText "tokens" ++ "\n" ++ String.join (tokenLines text) ++ ending ∧
      (ending = "" ∨ ending = Tree.closingText "tokens" ++ "\n") := by
  rcases Compile.run_load_eq_ok_iff.mp h with ⟨scanner, _, htext, _, _⟩
  unfold ofText tokenLines tokenize
  rw [htext]
  refine ⟨_, rfl, ?_⟩
  split
  · exact Or.inr rfl
  · exact Or.inl rfl

/-!
# Runs
-/

/-- The leaves that a run writes are tokens of the source, up to repetitions of the last
one. -/
theorem Compile.exists_leaves_of_classUnit {text : String} {c c1 : Compiler}
    (hload : (load text).run c = .ok () c1) :
    exists tokens : List Token,
      Tree.terminals (c1.after classUnit).tree.toList = tokens.map Listing.line ∧
        (tokens <+: (tokenize text).1 ∨
          exists last repeats, (tokenize text).1.getLast? = some last ∧
            tokens = (tokenize text).1 ++ List.replicate repeats last) := by
  have hahead := ahead_of_load hload
  rcases run_load_eq_ok_iff.mp hload with ⟨_, s, _, _, rfl⟩
  rcases exists_calls_classUnit (c := c.started s) rfl with
    ⟨calls, d, g, _, leaf, hcalls, _, hends, _⟩
  rcases hcalls.exists_makes with ⟨marks, _, _, _, hmakes, _⟩
  have htree : d.tree = #[] ++ (Tree.linesFrom 0 marks).toArray := hmakes.tree
  refine ⟨Tree.leaves marks ++ leaf.toList, ?_, ?_⟩
  · have hleaf : Tree.leaves (leaf.map Tree.Mark.leaf).toList = leaf.toList := by
      cases leaf <;> rfl
    rw [hends.tree, htree]
    simp [Tree.terminals_append, Tree.terminals_linesFrom, hleaf]
  · have htakes := hmakes.takes.begins_or_repeats leaf hends.current
    rw [hahead] at htakes
    exact htakes

/-- The leaves of the tree, be the source compiled or not, begin the listing of the source,
or they are the whole listing with its last line repeated. -/
theorem terminals_agree_with_listing {text : String} {c c1 : Compiler}
    (hload : (Compile.load text).run c = .ok () c1) :
    (exists ending, (Listing.ofText text).1 =
        Tree.openingText "tokens" ++ "\n" ++ String.join (Listing.tokenLines text) ++ ending ∧
      (ending = "" ∨ ending = Tree.closingText "tokens" ++ "\n")) ∧
    (Tree.terminals (c1.after Compile.classUnit).tree.toList <+: Listing.tokenLines text ∨
      exists last repeats, (Listing.tokenLines text).getLast? = some last ∧
        Tree.terminals (c1.after Compile.classUnit).tree.toList =
          Listing.tokenLines text ++ List.replicate repeats last) := by
  refine ⟨Listing.ofText_of_load hload, ?_⟩
  rcases Compile.exists_leaves_of_classUnit hload with ⟨tokens, hterminals, htokens⟩
  rw [hterminals]
  unfold Listing.tokenLines
  rcases htokens with hbegins | ⟨last, repeats, hlast, htokens⟩
  · exact Or.inl (hbegins.map Listing.line)
  · refine Or.inr ⟨Listing.line last, repeats, ?_, ?_⟩
    · rw [List.getLast?_map, hlast]
      rfl
    · rw [htokens, List.map_append, List.map_replicate]

theorem terminals_agree_with_listing_of_unclosed :
    exists c1, (Compile.load "class A \x7b function void f() \x7b \x7d").run {} = .ok () c1 ∧
      (Tree.terminals (c1.after Compile.classUnit).tree.toList <+:
          Listing.tokenLines "class A \x7b function void f() \x7b \x7d" ∨
        exists last repeats,
          (Listing.tokenLines "class A \x7b function void f() \x7b \x7d").getLast? = some last ∧
          Tree.terminals (c1.after Compile.classUnit).tree.toList =
            Listing.tokenLines "class A \x7b function void f() \x7b \x7d" ++
              List.replicate repeats last) := by
  have haccepted : (({} : Compiler).compile
      "class A \x7b function void f() \x7b \x7d").fault = none := by
    decide +kernel
  rcases Compiler.exists_load_of_compile haccepted with ⟨c1, _, hload, _, _⟩
  exact ⟨c1, hload, (terminals_agree_with_listing hload).2⟩

end Jack
