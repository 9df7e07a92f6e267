import Jack.Proofs.Labels
import Jack.Proofs.Program

/-!
# Runs as sequences of calls

Whatever a routine does to the compiler, it does by calls of a few kinds.  A run is a
sequence of calls, and this holds of a run that stops at a fault as well: its last call
raises the fault, or it takes a token and the scanner cannot move on.

A frame goes along with the calls.  It holds the constructs that are open and the labels
that are drawn but not defined yet.  A construct is left only if it is the innermost one
that is open, and a label is defined only if it is in the frame, where it is no more
afterwards.  Routines that succeed give the frame back as they found it.
-/

namespace Jack

/-!
# Calls
-/

inductive Call where
  | enter (nonterminal : Nonterminal)
  | leave (nonterminal : Nonterminal)
  | take
  | emit (instr : Instr)
  | draw
  | file (tables : Tables)
  | close
  | stop (fault : Fault)

namespace Call

open Compile

/-- What a call does. -/
def action : Call -> CompileM Unit
  | .enter nonterminal => Compile.enter nonterminal
  | .leave nonterminal => Compile.leave nonterminal
  | .take => do
      match ← current with
      | some token => Compile.take token
      | none => pure ()
  | .emit instr => Compile.emit instr
  | .draw => do
      let _ ← drawLabel
      pure ()
  | .file tables => fun c => .ok () (c.withTables tables)
  | .close => closeTree
  | .stop fault => throw fault

/-- Calls that are made one after the other. -/
def performAll : List Call -> CompileM Unit
  | [] => pure ()
  | call :: rest => do
      call.action
      performAll rest

theorem performAll_append (front rest : List Call) :
    performAll (front ++ rest) = performAll front >>= fun _ => performAll rest := by
  induction front with
  | nil => simp [performAll]
  | cons call front ih => simp [performAll, ih]

theorem performAll_singleton (call : Call) : performAll [call] = call.action := by
  simp [performAll]

end Call

/-!
# Frames
-/

/-- The open constructs, the innermost first, and the labels that are drawn but not
defined. -/
structure Frame where
  opened : List Nonterminal
  pending : List Nat

namespace Frame

def push (f : Frame) (nonterminal : Nonterminal) : Frame :=
  { f with opened := nonterminal :: f.opened }

def draw (f : Frame) (label : Nat) : Frame :=
  { f with pending := label :: f.pending }

/-- The calls that a frame allows, and the frame after them.  The next label to draw is
given. -/
inductive Allows (label : Nat) : Frame -> Call -> Frame -> Prop where
  | enter (f : Frame) (nonterminal : Nonterminal) :
      Allows label f (.enter nonterminal) (f.push nonterminal)
  | leave (f : Frame) (nonterminal : Nonterminal) :
      Allows label (f.push nonterminal) (.leave nonterminal) f
  | take (f : Frame) : Allows label f .take f
  | define (opened : List Nonterminal) (before after : List Nat) (number : Nat) :
      Allows label ⟨opened, before ++ number :: after⟩ (.emit (.label number))
        ⟨opened, before ++ after⟩
  | emit (f : Frame) {instr : Instr} :
      definedLabels [instr] = [] -> Allows label f (.emit instr) f
  | draw (f : Frame) : Allows label f .draw (f.draw label)
  | file (f : Frame) (tables : Tables) : Allows label f (.file tables) f

end Frame

namespace Compiler

/-- Calls that succeed and are allowed, from one compiler and frame to another. -/
inductive Calls : Compiler -> Frame -> List Call -> Compiler -> Frame -> Prop where
  | nil (c : Compiler) (f : Frame) : Calls c f [] c f
  | cons {c c1 c' : Compiler} {f f1 f' : Frame} {call : Call} {rest : List Call} :
      call.action.run c = .ok () c1 -> Frame.Allows c.labels f call f1 ->
      Calls c1 f1 rest c' f' -> Calls c f (call :: rest) c' f'

section

variable {c c' c'' : Compiler} {f f' f'' : Frame} {calls calls' : List Call}

theorem Calls.single {call : Call} (hrun : call.action.run c = .ok () c')
    (hallows : Frame.Allows c.labels f call f') : c.Calls f [call] c' f' :=
  Calls.cons hrun hallows (Calls.nil c' f')

theorem Calls.append (hfirst : c.Calls f calls c' f') (hsecond : c'.Calls f' calls' c'' f'') :
    c.Calls f (calls ++ calls') c'' f'' := by
  induction hfirst with
  | nil => exact hsecond
  | cons hrun hallows _ ih => exact Calls.cons hrun hallows (ih hsecond)

theorem Calls.run (h : c.Calls f calls c' f') :
    (Call.performAll calls).run c = .ok () c' := by
  induction h with
  | nil => rfl
  | cons hrun _ _ ih =>
      rw [Call.performAll, Compile.run_bind_of_ok hrun]
      exact ih

theorem Calls.run_last (h : c.Calls f calls c' f') (last : Call) :
    (Call.performAll (calls ++ [last])).run c = last.action.run c' := by
  rw [Call.performAll_append, Compile.run_bind_of_ok h.run, Call.performAll_singleton]

theorem Calls.exists_of_append (h : c.Calls f (calls ++ calls') c'' f'') :
    exists c' f', c.Calls f calls c' f' ∧ c'.Calls f' calls' c'' f'' := by
  induction calls generalizing c f with
  | nil => exact ⟨c, f, Calls.nil c f, h⟩
  | cons call rest ih =>
      cases h with
      | cons hrun hallows hrest =>
          rcases ih hrest with ⟨c1, f1, hfirst, hsecond⟩
          exact ⟨c1, f1, Calls.cons hrun hallows hfirst, hsecond⟩

end

end Compiler

/-!
# What calls make
-/

namespace Call

/-- The marks that a call writes at a token. -/
def marks (current : Option Token) : Call -> List Tree.Mark
  | .enter nonterminal => [.opening nonterminal]
  | .leave nonterminal => [.closing nonterminal]
  | .take => (current.map .leaf).toList
  | _ => []

def code : Call -> List Instr
  | .emit instr => [instr]
  | _ => []

/-- How many labels a call draws. -/
def labels : Call -> Nat
  | .draw => 1
  | _ => 0

def tables (t : Tables) : Call -> Tables
  | .file t' => t'
  | _ => t

theorem run_take_of_current {c : Compiler} {token : Token}
    (h : c.scanner.current = some token) :
    Call.take.action.run c = (Compile.take token).run c := by
  unfold action
  rw [Compile.run_bind_of_ok (Compile.run_current c), h]

theorem run_take_of_current_none {c : Compiler} (h : c.scanner.current = none) :
    Call.take.action.run c = .ok () c := by
  unfold action
  rw [Compile.run_bind_of_ok (Compile.run_current c), h]
  rfl

theorem exists_extend_of_take_error {c c' : Compiler} {fault : Fault} (hopen : c.treeOpen = true)
    (h : Call.take.action.run c = .error fault c') :
    exists token s, c.scanner.current = some token ∧ c' = c.extend s [.leaf token] [] 0 := by
  cases hcurrent : c.scanner.current with
  | none =>
      rw [run_take_of_current_none hcurrent] at h
      cases h
  | some token =>
      rw [run_take_of_current hcurrent] at h
      rcases Compile.exists_scanner_of_take_error hopen h with ⟨s, _, _, rfl⟩
      exact ⟨token, s, rfl, rfl⟩

end Call

theorem Frame.Allows.makes {c c' : Compiler} {f f' : Frame} {call : Call} {label : Nat}
    (h : Frame.Allows label f call f') (hrun : call.action.run c = .ok () c') :
    c.Makes (call.marks c.scanner.current) call.code call.labels (call.tables c.tables) c' := by
  cases h with
  | enter => exact (Compile.run_enter_eq_ok_iff.mp hrun).2.makes
  | leave => exact (Compile.run_leave_eq_ok_iff.mp hrun).2.makes
  | take =>
      cases hcurrent : c.scanner.current with
      | none =>
          rw [Call.run_take_of_current_none hcurrent] at hrun
          cases hrun
          exact (Compiler.Yields.refl c).makes
      | some token =>
          rw [Call.run_take_of_current hcurrent] at hrun
          exact ((Compile.run_take_eq_ok_iff hcurrent).mp hrun).2.makes
  | define => exact (Compile.yields_emit hrun).makes
  | emit => exact (Compile.yields_emit hrun).makes
  | draw =>
      rcases Compile.run_bind_eq_ok_iff.mp hrun with ⟨label, c1, hdraw, hpure⟩
      cases hpure
      exact (Compile.yields_drawLabel hdraw).2.makes
  | file _ tables =>
      cases hrun
      exact Compiler.makes_withTables c tables

/-- Of the labels that were pending or are drawn, some are defined, and the others are
pending. -/
theorem Frame.Allows.perm {f f' : Frame} {call : Call} {label : Nat}
    (h : Frame.Allows label f call f') :
    (definedLabels call.code ++ f'.pending).Perm
      (f.pending ++ List.range' label call.labels) := by
  cases h with
  | define opened before after number =>
      simpa [Call.code, Call.labels] using (List.perm_middle (a := number)).symm
  | emit _ hlabel => simp [Call.code, Call.labels, hlabel]
  | draw => exact (List.perm_append_singleton label f.pending).symm
  | _ => simp [Call.code, Call.labels, Frame.push]

namespace Compiler

/-- What calls make.  Labels go from the frame to the code. -/
theorem Calls.exists_makes {c c' : Compiler} {f f' : Frame} {calls : List Call}
    (h : c.Calls f calls c' f') :
    exists marks code labels t, c.Makes marks code labels t c' ∧
      (definedLabels code ++ f'.pending).Perm (f.pending ++ List.range' c.labels labels) := by
  induction h with
  | nil c f =>
      exact ⟨[], [], 0, c.tables, (Yields.refl c).makes, by simp⟩
  | @cons c c1 c' f f1 f' call rest hrun hallows _ ih =>
      rcases ih with ⟨marks, code, labels, t, hmakes, hperm⟩
      have hfirst := hallows.makes hrun
      refine ⟨_, _, _, t, hfirst.trans hmakes, ?_⟩
      rw [hfirst.labels] at hperm
      have hcall := hallows.perm.append_right (List.range' (c.labels + call.labels) labels)
      have hrest := hperm.append_left (definedLabels call.code)
      rw [List.append_assoc, List.append_assoc] at hcall
      rw [definedLabels_append, List.append_assoc, ← List.range'_append_1]
      exact hrest.trans hcall

theorem Calls.treeOpen {c c' : Compiler} {f f' : Frame} {calls : List Call}
    (h : c.Calls f calls c' f') : c'.treeOpen = c.treeOpen := by
  rcases h.exists_makes with ⟨_, _, _, _, hmakes, _⟩
  exact hmakes.treeOpen

end Compiler

/-!
# How a run ends
-/

namespace Compiler

/-- The compiler behind a step, whether the step succeeds or not. -/
def after (c : Compiler) (step : CompileM α) : Compiler :=
  match step.run c with
  | .ok _ c' => c'
  | .error _ c' => c'

/-- The last call of a run moves the scanner, closes the tree, or does nothing.  It may
still write a leaf with the current token. -/
structure Ends (c : Compiler) (leaf : Option Token) (c' : Compiler) : Prop where
  current : forall token, leaf = some token -> c.scanner.current = some token
  tree : c'.tree = c.tree ++ (Tree.linesFrom c.depth (leaf.map Tree.Mark.leaf).toList).toArray
  depth : c'.depth = c.depth
  code : c'.code = c.code
  labels : c'.labels = c.labels

theorem ends_of_same {c c' : Compiler} (htree : c'.tree = c.tree) (hdepth : c'.depth = c.depth)
    (hcode : c'.code = c.code) (hlabels : c'.labels = c.labels) : c.Ends none c' := by
  constructor
  · intro token h
    cases h
  · simp [htree, Tree.linesFrom]
  · exact hdepth
  · exact hcode
  · exact hlabels

theorem exists_ends_of_take_error {c c' : Compiler} {fault : Fault} (hopen : c.treeOpen = true)
    (h : Call.take.action.run c = .error fault c') : exists token, c.Ends (some token) c' := by
  rcases Call.exists_extend_of_take_error hopen h with ⟨token, s, hcurrent, rfl⟩
  refine ⟨token, ?_, ?_, ?_, ?_, ?_⟩
  · intro found hfound
    cases hfound
    exact hcurrent
  · rfl
  · simp [extend, Tree.levels]
  · simp [extend]
  · rfl

end Compiler

/-!
# Steps that are calls
-/

namespace Compiler

/-- After some calls one more call fails, which takes a token or does nothing else. -/
def Stops (c : Compiler) (f : Frame) (fault : Fault) (c' : Compiler) : Prop :=
  exists (calls : List Call) (d : Compiler) (g : Frame) (last : Call), c.Calls f calls d g ∧
    (last = .take ∨ last = .stop fault) ∧ last.action.run d = .error fault c'

/-- The step is a sequence of calls, whether it succeeds or not.  The frame after it
depends on its result. -/
structure Follows (c : Compiler) (f : Frame) (step : CompileM α) (next : α -> Frame) : Prop where
  ok : forall a c', step.run c = .ok a c' -> exists calls, c.Calls f calls c' (next a)
  error : forall fault c', step.run c = .error fault c' -> c.Stops f fault c'

end Compiler

namespace Compile

/-- The step is a sequence of calls wherever the tree can be written. -/
def Traced (f : Frame) (step : CompileM α) (next : α -> Frame) : Prop :=
  forall c : Compiler, c.treeOpen = true -> c.Follows f step next

/-- The step gives the frame back as it found it. -/
def Keeps (step : CompileM α) : Prop :=
  forall f, Traced f step fun _ => f

end Compile

namespace Compiler

open Compile

variable {c : Compiler} {f : Frame} {step : CompileM α} {next : α -> Frame}

theorem Follows.congr {step' : CompileM α} (hrun : step.run c = step'.run c)
    (h : c.Follows f step' next) : c.Follows f step next := by
  constructor
  · intro a c' hok
    rw [hrun] at hok
    exact h.ok a c' hok
  · intro fault c' herror
    rw [hrun] at herror
    exact h.error fault c' herror

theorem Follows.bind {second : α -> CompileM β} {last : β -> Frame}
    (hopen : c.treeOpen = true) (hfirst : c.Follows f step next)
    (hsecond : forall a c', step.run c = .ok a c' -> c'.treeOpen = true ->
      c'.Follows (next a) (second a) last) :
    c.Follows f (step >>= second) last := by
  constructor
  · intro b c'' hok
    rcases run_bind_eq_ok_iff.mp hok with ⟨a, c', hrun, hrest⟩
    rcases hfirst.ok a c' hrun with ⟨calls, hcalls⟩
    have hopen' : c'.treeOpen = true := by rw [hcalls.treeOpen, hopen]
    rcases (hsecond a c' hrun hopen').ok b c'' hrest with ⟨calls', hcalls'⟩
    exact ⟨calls ++ calls', hcalls.append hcalls'⟩
  · intro fault c'' herror
    rcases run_bind_eq_error_iff.mp herror with herror | ⟨a, c', hrun, hrest⟩
    · exact hfirst.error fault c'' herror
    · rcases hfirst.ok a c' hrun with ⟨calls, hcalls⟩
      have hopen' : c'.treeOpen = true := by rw [hcalls.treeOpen, hopen]
      rcases (hsecond a c' hrun hopen').error fault c'' hrest with
        ⟨calls', d, g, last, hcalls', hlast⟩
      exact ⟨calls ++ calls', d, g, last, hcalls.append hcalls', hlast⟩

end Compiler

namespace Compile

section

variable {c : Compiler} {f : Frame} {step : CompileM α} {next : α -> Frame}

theorem Traced.bind {second : α -> CompileM β} {last : β -> Frame} (hfirst : Traced f step next)
    (hsecond : forall a, Traced (next a) (second a) last) : Traced f (step >>= second) last := by
  intro c hopen
  exact (hfirst c hopen).bind hopen fun a c' _ hopen' => hsecond a c' hopen'

theorem Keeps.bind {second : α -> CompileM β} (hfirst : Keeps step)
    (hsecond : forall a, Keeps (second a)) : Keeps (step >>= second) := by
  intro f
  exact (hfirst f).bind fun a => hsecond a f

/-!
# Steps that change nothing
-/

/-- The step looks at the compiler, and it fails or not. -/
theorem keeps_of_same (h : forall c : Compiler,
    (exists a, step.run c = .ok a c) ∨ exists fault, step.run c = .error fault c) :
    Keeps step := by
  intro f c _
  constructor
  · intro a c' hok
    rcases h c with ⟨_, hrun⟩ | ⟨_, hrun⟩
    · rw [hrun] at hok
      cases hok
      exact ⟨[], .nil c f⟩
    · rw [hrun] at hok
      cases hok
  · intro fault c' herror
    rcases h c with ⟨_, hrun⟩ | ⟨_, hrun⟩
    · rw [hrun] at herror
      cases herror
    · rw [hrun] at herror
      cases herror
      exact ⟨[], c, f, .stop fault, .nil c f, Or.inr rfl, rfl⟩

theorem keeps_pure (a : α) : Keeps (pure a : CompileM α) :=
  keeps_of_same fun _ => Or.inl ⟨a, rfl⟩

theorem keeps_throw (fault : Fault) : Keeps (throw fault : CompileM α) :=
  keeps_of_same fun _ => Or.inr ⟨fault, rfl⟩

theorem keeps_get : Keeps (get : CompileM Compiler) :=
  keeps_of_same fun c => Or.inl ⟨c, rfl⟩

theorem keeps_bound : Keeps bound :=
  keeps_of_same fun _ => Or.inl ⟨_, rfl⟩

theorem keeps_current : Keeps current :=
  keeps_of_same fun c => Or.inl ⟨_, run_current c⟩

theorem keeps_atSymbol (sign : Symbol) : Keeps (atSymbol sign) :=
  keeps_of_same fun c => Or.inl ⟨_, run_atSymbol sign c⟩

theorem keeps_atKeyword (words : List Keyword) : Keeps (atKeyword words) :=
  keeps_of_same fun c => Or.inl ⟨_, run_atKeyword words c⟩

theorem keeps_unexpectedKind (expected : Token.Kind) :
    Keeps (unexpectedKind expected : CompileM α) :=
  keeps_of_same fun _ => Or.inr ⟨_, rfl⟩

theorem keeps_currentKeyword : Keeps currentKeyword := by
  apply keeps_of_same
  intro c
  rw [run_currentKeyword]
  cases c.scanner.keyword with
  | ok k => exact Or.inl ⟨k, rfl⟩
  | error fault => exact Or.inr ⟨fault, rfl⟩

/-!
# Steps that are one call
-/

/-- A call that succeeds and is allowed. -/
theorem follows_of_call (call : Call) {c' : Compiler} {a : α}
    (hstep : step.run c = .ok a c') (hcall : call.action.run c = .ok () c')
    (hallows : Frame.Allows c.labels f call (next a)) : c.Follows f step next := by
  constructor
  · intro b d hok
    rw [hstep] at hok
    cases hok
    exact ⟨[call], .single hcall hallows⟩
  · intro fault d herror
    rw [hstep] at herror
    cases herror

theorem traced_enter (f : Frame) (nonterminal : Nonterminal) :
    Traced f (enter nonterminal) fun _ => f.push nonterminal := by
  intro c hopen
  have hrun : (enter nonterminal).run c = .ok () _ :=
    run_enter_eq_ok_iff.mpr ⟨hopen, c.scanner, .nil _, rfl⟩
  exact follows_of_call (.enter nonterminal) hrun hrun (.enter f nonterminal)

theorem traced_leave (f : Frame) (nonterminal : Nonterminal) :
    Traced (f.push nonterminal) (leave nonterminal) fun _ => f := by
  intro c hopen
  have hrun : (leave nonterminal).run c = .ok () _ :=
    run_leave_eq_ok_iff.mpr ⟨hopen, c.scanner, .nil _, rfl⟩
  exact follows_of_call (.leave nonterminal) hrun hrun (.leave f nonterminal)

theorem keeps_emit {instr : Instr} (h : definedLabels [instr] = []) : Keeps (emit instr) := by
  intro f c _
  exact follows_of_call (.emit instr) rfl rfl (.emit f h)

/-- A pending label is defined. -/
theorem traced_define {number : Nat} {before after : List Nat}
    (h : f.pending = before ++ number :: after) :
    Traced f (emit (.label number)) fun _ => { f with pending := before ++ after } := by
  intro c _
  have hallows : Frame.Allows c.labels _ (.emit (.label number)) _ :=
    .define f.opened before after number
  rw [← h] at hallows
  exact follows_of_call (.emit (.label number)) rfl rfl hallows

theorem traced_drawLabel (f : Frame) : Traced f drawLabel fun label => f.draw label := by
  intro c _
  exact follows_of_call (.draw) rfl rfl (.draw f)

/-- The step changes the tables, or it fails and changes nothing. -/
theorem keeps_of_tables (h : forall c : Compiler,
    (exists a t, step.run c = .ok a (c.withTables t)) ∨
      exists fault, step.run c = .error fault c) : Keeps step := by
  intro f c hopen
  rcases h c with ⟨a, t, hrun⟩ | ⟨fault, hrun⟩
  · exact follows_of_call (.file t) hrun rfl (.file f t)
  · constructor
    · intro a c' hok
      rw [hrun] at hok
      cases hok
    · intro fault' c' herror
      rw [hrun] at herror
      cases herror
      exact ⟨[], c, f, .stop fault, .nil c f, Or.inr rfl, rfl⟩

/-- The current token is taken.  The call may fail when the scanner moves on. -/
theorem follows_take {token : Token} (hcurrent : c.scanner.current = some token) (f : Frame) :
    c.Follows f (take token) fun _ => f := by
  have hcall := Call.run_take_of_current hcurrent
  constructor
  · intro a c' hok
    rw [← hcall] at hok
    exact ⟨[.take], .single hok (.take f)⟩
  · intro fault c' herror
    rw [← hcall] at herror
    exact ⟨[], c, f, .take, .nil c f, Or.inl rfl, herror⟩

end

end Compile
end Jack
