import Mathlib.Data.List.Forall2
import ScriptMachine.Proofs.World

/-!
# Worlds that look alike

Two runs of a program are compared value by value. A `Likeness` says which functions and classes of one run
stand for which of the other; it is faithful when those show the same and are told apart on one side exactly
when they are on the other (`Likeness.Faithful`). Values are alike when they are equal up to that
(`Value.Like`), so that no builtin operation can tell them apart (`Builtin.apply_eq_of_like`).

Two worlds are alike when their globals, objects and printed texts are. The second one may have a larger heap
or a sink that accepts more, as far as a `Slack` allows that. What a program does with the worlds then leads
to alike worlds and values, or to a fault in the first one that the slack excuses
(`World.Like.applyNative`, `World.Like.allocate`).
-/

set_option autoImplicit false
set_option relaxedAutoImplicit false

namespace ScriptMachine

/-! ### Alike values -/

/-- Which functions and classes of one run stand for which of another. -/
structure Likeness where
  functions : Function → Function → Prop
  layouts : Class → Class → Prop

/-- Functions and classes that stand for each other show the same, and are told apart on one side exactly when
they are on the other. -/
structure Likeness.Faithful (likeness : Likeness) : Prop where
  functionName : ∀ {first second : Function}, likeness.functions first second → first.name = second.name
  functionIdentity : ∀ {first second other another : Function}, likeness.functions first second →
    likeness.functions other another → (first.identity = other.identity ↔ second.identity = another.identity)
  layoutFields : ∀ {first second : Class}, likeness.layouts first second → first.fields = second.fields
  layoutIdentity : ∀ {first second other another : Class}, likeness.layouts first second →
    likeness.layouts other another → (first.identity = other.identity ↔ second.identity = another.identity)

/-- Two values are equal up to functions and classes that stand for each other. -/
inductive Value.Like (likeness : Likeness) : Value → Value → Prop where
  | undefined : Like likeness .undefined .undefined
  | integer (value : Int64) : Like likeness (.integer value) (.integer value)
  | text (content : String) : Like likeness (.text content) (.text content)
  | boolean (value : Bool) : Like likeness (.boolean value) (.boolean value)
  | function {first second : Function} (hfunctions : likeness.functions first second) :
      Like likeness (.function first) (.function second)
  | layout {first second : Class} (hlayouts : likeness.layouts first second) :
      Like likeness (.layout first) (.layout second)
  | object {first second : Class} (index : UInt32) (hlayouts : likeness.layouts first second) :
      Like likeness (.object ⟨index, first⟩) (.object ⟨index, second⟩)
  | globalScope : Like likeness .globalScope .globalScope

namespace Value.Like

variable {likeness : Likeness} {first second other another : Value}

/-- Alike values lead a conditional into the same arm. -/
theorem isFalse_eq (hlike : first.Like likeness second) : first.isFalse = second.isFalse := by
  cases hlike <;> rfl

/-- Alike values are printed alike. -/
theorem toText_eq (hfaithful : likeness.Faithful) (hlike : first.Like likeness second) :
    first.toText = second.toText := by
  cases hlike
  case boolean value => rfl
  case function hfunctions => exact congrArg ("function " ++ ·) (hfaithful.functionName hfunctions)
  case layout hlayouts => simp only [toText, fieldList, hfaithful.layoutFields hlayouts]
  case object hlayouts => simp only [toText, fieldList, hfaithful.layoutFields hlayouts]
  all_goals rfl

/-- The language tells alike values apart alike. -/
theorem same_eq (hfaithful : likeness.Faithful) (hlike : first.Like likeness second)
    (hother : other.Like likeness another) : first.same other = second.same another := by
  cases hlike <;> cases hother
  case function.function hfunctions _ _ hothers =>
    exact decide_eq_decide.mpr (hfaithful.functionIdentity hfunctions hothers)
  case layout.layout hlayouts _ _ hothers =>
    exact decide_eq_decide.mpr (hfaithful.layoutIdentity hlayouts hothers)
  all_goals rfl

end Value.Like

/-- What stands for each other in one comparison does so in another one. -/
structure Likeness.Within (likeness larger : Likeness) : Prop where
  functions : ∀ {first second : Function}, likeness.functions first second → larger.functions first second
  layouts : ∀ {first second : Class}, likeness.layouts first second → larger.layouts first second

/-- Values stay alike when more stands for each other. -/
theorem Value.Like.mono {likeness larger : Likeness} (hwithin : likeness.Within larger) {first second : Value}
    (hlike : first.Like likeness second) : first.Like larger second := by
  cases hlike
  case function hfunctions => exact .function (hwithin.functions hfunctions)
  case layout hlayouts => exact .layout (hwithin.layouts hlayouts)
  case object index hlayouts => exact .object index (hwithin.layouts hlayouts)
  all_goals constructor

/-! ### Builtin operations -/

namespace Builtin

variable {likeness : Likeness} {left right left' right' : Value}

/-- Alike arguments of an arithmetic operation are the same integer, or refused alike. -/
theorem integerArgument_eq_of_like (hlike : left.Like likeness left') :
    integerArgument left = integerArgument left' := by
  cases hlike <;> rfl

/-- Alike values are ordered alike. -/
theorem ordering_eq_of_like (hleft : left.Like likeness left') (hright : right.Like likeness right') :
    ordering left right = ordering left' right' := by
  cases hleft <;> cases hright <;> rfl

/-- An operation on two values has the same result for alike values. -/
theorem combine_eq_of_like (hfaithful : likeness.Faithful) (operation : Builtin)
    (hleft : left.Like likeness left') (hright : right.Like likeness right') :
    combine operation left right = combine operation left' right' := by
  cases operation <;>
    simp only [combine, arithmetic, comparison, integerArgument_eq_of_like hleft,
      integerArgument_eq_of_like hright, ordering_eq_of_like hleft hright, hleft.same_eq hfaithful hright]

/-- Alike arguments are printed alike. -/
theorem printedLine_eq_of_like (hfaithful : likeness.Faithful) {arguments arguments' : List Value}
    (harguments : List.Forall₂ (Value.Like likeness) arguments arguments') :
    printedLine arguments = printedLine arguments' := by
  have htexts : arguments.map Value.toText = arguments'.map Value.toText := by
    induction harguments with
    | nil => rfl
    | cons hvalue _ ih => rw [List.map_cons, List.map_cons, hvalue.toText_eq hfaithful, ih]
  rw [printedLine, htexts]
  rfl

/-- A builtin operation does the same with alike arguments. -/
theorem apply_eq_of_like (hfaithful : likeness.Faithful) (operation : Builtin)
    {arguments arguments' : List Value}
    (harguments : List.Forall₂ (Value.Like likeness) arguments arguments') :
    operation.apply arguments = operation.apply arguments' := by
  have hline := printedLine_eq_of_like hfaithful harguments
  cases harguments with
  | nil => rfl
  | cons hfirst hrest =>
    cases hrest with
    | nil => cases operation <;> first | rfl | simp only [apply, hline]
    | cons hsecond hmore =>
      cases hmore with
      | nil => cases operation <;> simp only [apply, hline, combine_eq_of_like hfaithful _ hfirst hsecond]
      | cons _ hlast =>
        have hlength := hlast.length_eq
        cases operation <;> simp only [apply, hline, List.length_cons, hlength]

end Builtin

/-! ### Sinks -/

/-- Which limits the second of two runs may have larger. -/
structure Slack where
  stack : Prop
  heap : Prop
  sink : Prop

/-- A fault that comes of a limit which the second run may have larger. -/
def Slack.Excuses (slack : Slack) : Fault → Prop
  | .stackOverflow _ => slack.stack
  | .heapExhausted _ _ => slack.heap
  | .outputFailed _ => slack.sink
  | _ => False

/-- Both runs have the same limits. -/
def Slack.none : Slack :=
  ⟨False, False, False⟩

/-- Equal limits excuse nothing. -/
theorem Slack.not_excuses_none (fault : Fault) : ¬ Slack.none.Excuses fault := by
  cases fault <;> exact id

namespace Sink

/-- The text of a sink is the beginning of that of another one. -/
def Precedes (earlier later : Sink) : Prop :=
  ∃ more : String, later.written = earlier.written ++ more

/-- A text is the beginning of itself. -/
theorem Precedes.of_eq {earlier later : Sink} (hsame : earlier.written = later.written) :
    earlier.Precedes later :=
  ⟨"", by rw [String.append_empty, hsame]⟩

theorem Precedes.refl (sink : Sink) : sink.Precedes sink :=
  .of_eq rfl

theorem Precedes.trans {first second third : Sink} (hfirst : first.Precedes second)
    (hsecond : second.Precedes third) : first.Precedes third := by
  obtain ⟨more, hmore⟩ := hfirst
  obtain ⟨last, hlast⟩ := hsecond
  exact ⟨more ++ last, by rw [hlast, hmore, String.append_assoc]⟩

/-- A sink that takes a piece of text has the old text as its beginning. -/
theorem precedes_take (sink : Sink) (piece : String) : sink.Precedes (sink.take piece) :=
  ⟨piece, rfl⟩

/-- The state in which something ends. -/
def state {α : Type} : EStateM.Result Fault Sink α → Sink
  | .ok _ sink => sink
  | .error _ sink => sink

/-- Handing a piece of text over only adds to the text. -/
theorem precedes_write (sink : Sink) (piece : String) : sink.Precedes (state (write piece sink)) := by
  unfold write
  split
  · exact sink.precedes_take piece
  · exact .refl sink

/-- Printing a line only adds to the text. -/
theorem precedes_printLine (sink : Sink) (line : String) : sink.Precedes (state (printLine line sink)) := by
  have hline := sink.precedes_write line
  simp only [printLine, bind, EStateM.bind]
  cases hwritten : write line sink with
  | ok _ later =>
    rw [hwritten] at hline
    exact hline.trans (later.precedes_write "\n")
  | error fault later =>
    rw [hwritten] at hline
    exact hline

/-- A builtin operation only adds to the text. -/
theorem precedes_apply (sink : Sink) (operation : Builtin) (arguments : List Value) :
    sink.Precedes (state (operation.apply arguments sink)) := by
  unfold Builtin.apply
  split
  case h_1 =>
    have hline := sink.precedes_printLine (Builtin.printedLine arguments)
    simp only [bind, EStateM.bind]
    cases hprinted : printLine (Builtin.printedLine arguments) sink with
    | ok _ later =>
      rw [hprinted] at hline
      exact hline
    | error fault later =>
      rw [hprinted] at hline
      exact hline
  case h_2 left right _ => cases operation.combine left right <;> exact .refl sink
  case h_3 => exact .refl sink

/-- Two sinks took the same text, and the second one accepts as much as the first one, or more where that is
allowed. -/
structure Looser (allowed : Prop) (sink looser : Sink) : Prop where
  written : sink.written = looser.written
  budget : ∀ bytes ∈ looser.budget, ∃ fewer ∈ sink.budget, fewer ≤ bytes
  same : ¬ allowed → sink.budget = looser.budget

namespace Looser

variable {allowed : Prop} {sink looser : Sink}

/-- A sink accepts what a sink does that is no looser. -/
theorem accepts (hlooser : Looser allowed sink looser) {piece : String} (haccepts : sink.accepts piece) :
    looser.accepts piece := by
  unfold Sink.accepts at haccepts ⊢
  cases hbudget : looser.budget with
  | none => rfl
  | some bytes =>
    obtain ⟨fewer, hfewer, hle⟩ := hlooser.budget bytes hbudget
    rw [Option.mem_def.mp hfewer] at haccepts
    exact decide_eq_true (Nat.le_trans (of_decide_eq_true haccepts) hle)

/-- Sinks stay alike when both take a piece of text. -/
theorem take (hlooser : Looser allowed sink looser) (piece : String) :
    Looser allowed (sink.take piece) (looser.take piece) := by
  refine ⟨by simp only [Sink.take, hlooser.written], fun bytes hbytes ↦ ?_, fun hnot ↦ ?_⟩
  · obtain ⟨more, hmore, rfl⟩ := Option.map_eq_some_iff.mp hbytes
    obtain ⟨fewer, hfewer, hle⟩ := hlooser.budget more hmore
    exact ⟨fewer - piece.utf8ByteSize, Option.map_eq_some_iff.mpr ⟨fewer, hfewer, rfl⟩,
      Nat.sub_le_sub_right hle _⟩
  · simp only [Sink.take, hlooser.same hnot]

/-- Two sinks take or refuse a piece of text alike, unless only the looser one takes it. -/
theorem accepts_cases (hlooser : Looser allowed sink looser) (piece : String) :
    sink.accepts piece = looser.accepts piece ∨
      allowed ∧ sink.accepts piece = false ∧ looser.accepts piece = true := by
  cases haccepts : sink.accepts piece with
  | true => exact Or.inl (hlooser.accepts haccepts).symm
  | false =>
    by_cases hallowed : allowed
    · cases hloose : looser.accepts piece with
      | true => exact Or.inr ⟨hallowed, rfl, rfl⟩
      | false => exact Or.inl rfl
    · left
      rw [← haccepts, Sink.accepts, Sink.accepts, hlooser.same hallowed]

end Looser

/-- What comes of something that writes to a sink and to a looser one: the same on both, or the first one is
full. -/
inductive Alike {α : Type} (allowed : Prop) :
    EStateM.Result Fault Sink α → EStateM.Result Fault Sink α → Prop where
  | ok {value : α} {sink looser : Sink} (hlooser : Looser allowed sink looser) :
      Alike allowed (.ok value sink) (.ok value looser)
  | error {fault : Fault} {sink looser : Sink} (hlooser : Looser allowed sink looser) :
      Alike allowed (.error fault sink) (.error fault looser)
  | cut {sink : Sink} {result : EStateM.Result Fault Sink α} (hallowed : allowed)
      (hprecedes : sink.Precedes (state result)) : Alike allowed (.error refusal sink) result

/-- A line is printed alike, or the first sink is full. -/
theorem Looser.printLine {allowed : Prop} {sink looser : Sink} (hlooser : Looser allowed sink looser)
    (line : String) : Alike allowed (Sink.printLine line sink) (Sink.printLine line looser) := by
  have hwrite : ∀ (piece : String) {sink looser : Sink}, Looser allowed sink looser →
      Alike allowed (Sink.write piece sink) (Sink.write piece looser) := by
    intro piece sink looser hlooser
    unfold Sink.write
    rcases hlooser.accepts_cases piece with hsame | ⟨hallowed, hrefused, htaken⟩
    · rw [hsame]
      split
      · exact .ok (hlooser.take piece)
      · exact .error hlooser
    · rw [hrefused, htaken]
      exact .cut hallowed ((Precedes.of_eq hlooser.written).trans (looser.precedes_take piece))
  have hfirst := hwrite line hlooser
  simp only [Sink.printLine, bind, EStateM.bind]
  generalize Sink.write line sink = result at hfirst
  generalize Sink.write line looser = result' at hfirst
  cases hfirst with
  | ok hnext => exact hwrite "\n" hnext
  | error hnext => exact .error hnext
  | @cut next _ hallowed hprecedes =>
    cases result' with
    | ok _ later => exact .cut hallowed (hprecedes.trans (later.precedes_write "\n"))
    | error fault later => exact .cut hallowed hprecedes

/-- A builtin operation is carried out alike, or the first sink is full. -/
theorem Looser.apply {allowed : Prop} {sink looser : Sink} (hlooser : Looser allowed sink looser)
    (operation : Builtin) (arguments : List Value) :
    Alike allowed (operation.apply arguments sink) (operation.apply arguments looser) := by
  have hpure : ∀ value : Value, Alike allowed (.ok value sink) (.ok value looser) := fun _ ↦ .ok hlooser
  have hrefused : ∀ fault : Fault,
      Alike allowed (α := Value) (.error fault sink) (.error fault looser) := fun _ ↦ .error hlooser
  unfold Builtin.apply
  split
  case h_1 =>
    have hprinted := hlooser.printLine (Builtin.printedLine arguments)
    simp only [bind, EStateM.bind]
    generalize Sink.printLine (Builtin.printedLine arguments) sink = result at hprinted
    generalize Sink.printLine (Builtin.printedLine arguments) looser = result' at hprinted
    cases hprinted with
    | ok hnext => exact .ok hnext
    | error hnext => exact .error hnext
    | cut hallowed hprecedes => cases result' <;> exact .cut hallowed hprecedes
  case h_2 left right _ =>
    cases operation.combine left right with
    | ok value => exact hpure value
    | error fault => exact hrefused fault
  case h_3 => exact hrefused _

end Sink

end ScriptMachine
