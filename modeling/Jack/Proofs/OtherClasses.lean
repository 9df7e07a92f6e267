import Jack.Proofs.Filing.Class

/-!
# What a compilation leaves alone

The tables change only for the class that a source declares.  The tables and the sizes of all
other classes are the same before and after a source is compiled, wherever it may be stopped.
-/

namespace Jack

open Compile

namespace Tables

section

variable {owner other : String} {t t' : Tables}

theorem get?_classes_mapClass (hclass : t.scope.className = some owner) (hne : other ≠ owner)
    (f : Table Entry -> Table Entry) :
    (t.scope.mapClass f).classes.get? other = t.scope.classes.get? other := by
  by_cases hhas : t.scope.HasClass
  · rcases hhas with ⟨name, table, hname, htable⟩
    cases Option.some.inj (hname.symm.trans hclass)
    rw [Scope.mapClass_of_get hname htable]
    exact Bindings.get?_set_of_ne _ _ hne
  · rw [Scope.mapClass_of_not_hasClass hhas]

/-- A declaration goes to the table of the subroutine or to that of the class at hand. -/
theorem get?_classes_declare (hclass : t.scope.className = some owner) (hne : other ≠ owner)
    (category : Category) (name : String) (type : Option String) :
    (t.declare category name type).scope.classes.get? other = t.scope.classes.get? other := by
  rcases category with (_ | _ | _ | _) | _ | _
  · rfl
  · rfl
  · exact get?_classes_mapClass hclass hne _
  · exact get?_classes_mapClass hclass hne _
  · rfl
  · exact get?_classes_mapClass hclass hne _

theorem sizes_declare (t : Tables) (category : Category) (name : String) (type : Option String) :
    (t.declare category name type).sizes = t.sizes := by
  rcases category with (_ | _ | _ | _) | _ | _ <;> rfl

/-- The tables and the sizes of another class are the same. -/
def SameAt (other : String) (t t' : Tables) : Prop :=
  t'.scope.classes.get? other = t.scope.classes.get? other ∧
    t'.sizes.get? other = t.sizes.get? other

theorem Change.sameAt (h : t.Change owner t') (hne : other ≠ owner) : SameAt other t t' := by
  cases h with
  | openClass => exact ⟨Bindings.get?_set_of_ne _ _ hne, rfl⟩
  | openLocals => exact ⟨rfl, rfl⟩
  | reserveObject => exact ⟨rfl, rfl⟩
  | setSize => exact ⟨rfl, Bindings.get?_set_of_ne _ _ hne⟩
  | declare name _ _ hclass =>
      refine ⟨get?_classes_declare hclass hne _ name _, ?_⟩
      rw [sizes_declare]

theorem Evolves.sameAt (h : t.Evolves owner t') (hne : other ≠ owner) : SameAt other t t' := by
  induction h with
  | refl => exact ⟨rfl, rfl⟩
  | tail _ hchange ih =>
      rcases hchange.sameAt hne with ⟨hclasses, hsizes⟩
      exact ⟨hclasses.trans ih.1, hsizes.trans ih.2⟩

end

end Tables

namespace Compiler

theorem sameAt_load (c : Compiler) (text other : String) :
    Tables.SameAt other c.tables (c.after (load text)).tables := by
  rcases c.after_load_cases text with hsame | ⟨s, _, hstarted | hstopped⟩
  · rw [hsame]
    exact ⟨rfl, rfl⟩
  · rw [hstarted]
    exact ⟨rfl, rfl⟩
  · rw [hstopped]
    exact ⟨rfl, rfl⟩

/-- A class that is compiled where a text begins is the one that the text declares. -/
theorem sameAt_classUnit {c c' : Compiler} {text other : String}
    (hload : (load text).run c = .ok () c') (h : declaredClass text ≠ some other) :
    Tables.SameAt other c'.tables (c'.after classUnit).tables := by
  rcases (filed_classUnit (named_of_load hload)).2 with hsame | ⟨owner, s, htakes, hevolves⟩
  · rw [hsame]
    exact ⟨rfl, rfl⟩
  · rcases run_load_eq_ok_iff.mp hload with ⟨scanner, first, htext, hadvance, rfl⟩
    have hdeclared := declaredClass_of_takes htext hadvance htakes
    have hne : other ≠ owner := fun heq => h (heq ▸ hdeclared)
    exact hevolves.sameAt hne

end Compiler

/-- Compiling a source leaves all classes alone but the one that it declares, whether the source
is accepted or not: their tables stay with all entries and counts, and so do their sizes. -/
theorem compile_keeps_other_classes {text other : String} (h : declaredClass text ≠ some other)
    (c : Compiler) :
    (c.compile text).compiler.classes.get? other = c.classes.get? other ∧
      (c.compile text).compiler.sizes.get? other = c.sizes.get? other := by
  have hload := c.sameAt_load text other
  rw [c.compiler_compile text]
  cases hrun : (load text).run c with
  | ok _ c' =>
      rw [Compiler.after_of_ok hrun] at hload
      rw [Compiler.after_bind_of_ok hrun]
      have hclass := Compiler.sameAt_classUnit hrun h
      exact ⟨hclass.1.trans hload.1, hclass.2.trans hload.2⟩
  | error fault c' =>
      rw [Compiler.after_of_error hrun] at hload
      rw [Compiler.after_bind_of_error hrun]
      exact hload

/-- A class that declares a field and a method, looks a method of another class up, and is
refused at a name that nothing declares. -/
def strayText : String :=
  "class A \x7b field int x; method int g(B b) \x7b while (b.f()) \x7b let y = 1; \x7d \x7d \x7d"

/-- The refused class has changed its own table, and the class whose method it has found is as
before. -/
theorem other_class_kept_by_refusal :
    declaredClass strayText = some "A" ∧ declaredClass strayText ≠ some "B" ∧
      (Compiler.informed.compile strayText).fault.isSome = true ∧
      Compiler.informed.classes.get? "A" = none ∧
      ((Compiler.informed.compile strayText).compiler.classes.get? "A").isSome = true ∧
      (Compiler.informed.classes.get? "B").isSome = true ∧
      (Compiler.informed.compile strayText).compiler.classes.get? "B" =
        Compiler.informed.classes.get? "B" ∧
      (Compiler.informed.compile strayText).compiler.sizes.get? "B" =
        Compiler.informed.sizes.get? "B" := by
  have hdeclared : declaredClass strayText = some "A" := by decide +kernel
  have hother : declaredClass strayText ≠ some "B" := by
    rw [hdeclared]
    decide
  have hbefore : Compiler.informed.classes.get? "A" = none ∧
      (Compiler.informed.classes.get? "B").isSome = true := by decide +kernel
  have hrefused : (Compiler.informed.compile strayText).fault.isSome = true ∧
      ((Compiler.informed.compile strayText).compiler.classes.get? "A").isSome = true := by
    decide +kernel
  exact ⟨hdeclared, hother, hrefused.1, hbefore.1, hrefused.2, hbefore.2,
    compile_keeps_other_classes hother Compiler.informed⟩

end Jack
