import ScriptMachine.Proofs.LoweringGrowth

/-!
# The compiler is right

`Lowering.meets_lowerNode` is the correctness of the compiler for one node: whatever workspace it starts
from, the code that it answers with belongs to the node, the sites of the node have taken the next
identities, and the functions that it has added belong to the function literals of the node. From it follow
the same for functions (`Lowering.meets_routineOf`) and for scripts (`meets_compileScript`).
-/

set_option autoImplicit false
set_option relaxedAutoImplicit false

namespace ScriptMachine

namespace Lowering

/-- A fragment is the code of a part, whose sites have taken the next identities. -/
def LowersPart (workspace : Workspace) (slots : SlotTable) (part : Part) (sites : Nat) (code : Fragment)
    (after : Workspace) (_ : Registry) : Prop :=
  after.nextIdentity = workspace.nextIdentity + sites ∧
    ∀ final : ConstantTable, after.constants.Extends final → final.size ≤ Word.indexLimit →
      Lowered final slots workspace.nextIdentity part code

/-- The compiler is right about a node. -/
def RightFor (node : Node) : Prop :=
  ∀ (strict : Bool) (slots : SlotTable) (workspace : Workspace) (registry : Registry),
    workspace.Valid registry →
    Meets (lowerNode strict slots node) workspace registry (node.closures workspace.nextIdentity)
      (LowersPart workspace slots (.node node) node.sites)

/-! ### Constants and identities of new things -/

/-- An identity is given away that nothing has. -/
theorem meets_freshIdentity {workspace : Workspace} {registry : Registry}
    (hvalid : workspace.Valid registry) :
    Meets freshIdentity workspace registry [] fun identity after later ↦
      identity = workspace.nextIdentity ∧ after.nextIdentity = workspace.nextIdentity + 1 ∧
        after.constants = workspace.constants ∧ later.functions identity = none ∧
        later.layouts identity = none := by
  have hfree : ∀ {α : Type} (found : Option α), (∀ value, found = some value →
      workspace.nextIdentity < workspace.nextIdentity) → found = none := by
    intro α found hbound
    cases found with
    | none => rfl
    | some value => exact absurd (hbound value rfl) (Nat.lt_irrefl _)
  refine ⟨registry, ⟨ConstantTable.Extends.refl _, Nat.le_succ _, Registry.Extends.refl _,
    ⟨hvalid.constants, ?_, ?_⟩, fun _ _ hroutine ↦ Or.inl hroutine⟩, rfl, rfl, rfl, ?_, ?_⟩
  · exact fun identity callee hfound ↦ Nat.lt_succ_of_lt (hvalid.functions identity callee hfound)
  · exact fun identity layout hfound ↦ Nat.lt_succ_of_lt (hvalid.layouts identity layout hfound)
  · exact hfree _ fun callee hfound ↦ hvalid.functions _ callee hfound
  · exact hfree _ fun layout hfound ↦ hvalid.layouts _ layout hfound

/-- A new routine that is the code of a function is made a constant. -/
theorem meets_routineConstant {workspace : Workspace} {registry : Registry}
    (hvalid : workspace.Valid registry) {routine : Routine} {closure : Closure}
    (hless : routine.identity < workspace.nextIdentity)
    (hnew : registry.functions routine.identity = none)
    (hcompiled : ∀ final : ConstantTable, workspace.constants.Extends final →
      final.size ≤ Word.indexLimit → closure.Compiled final routine)
    (hidentity : closure.identity = routine.identity) :
    Meets (constant (.function (.compiled routine))) workspace registry [closure] fun word after _ ↦
      after.nextIdentity = workspace.nextIdentity ∧ ∀ final : ConstantTable,
        after.constants.Extends final → final.size ≤ Word.indexLimit →
        final.constant? word = some (.function (.compiled routine)) := by
  let later := withFunction registry (.compiled routine)
  have hextends : registry.Extends later := extends_withFunction hnew
  have hvalue : (Value.function (.compiled routine)).Valid later [] := if_pos rfl
  have hinline : (Value.function (.compiled routine)).inlineWord? = none := rfl
  have hlater : workspace.Valid later := by
    refine ⟨hvalid.constants.mono hextends, fun identity callee hfound ↦ ?_, hvalid.layouts⟩
    simp only [later, withFunction] at hfound
    split_ifs at hfound with hsame
    · rw [hsame]
      exact hless
    · exact hvalid.functions identity callee hfound
  have hbox := workspace.constants.box_extends (.function (.compiled routine))
  refine ⟨later, ⟨hbox, Nat.le_refl _, hextends,
    ⟨hlater.constants.box hinline hvalue, hlater.functions, hlater.layouts⟩, ?_⟩, rfl,
    fun final hfinal hsize ↦ ?_⟩
  · intro identity found hfound
    simp only [later, withFunction] at hfound
    split_ifs at hfound with hsame
    · obtain rfl := Function.compiled.inj (Option.some.inj hfound)
      exact Or.inr ⟨(hlater.constants.boxed_box hvalue).mem, closure, List.mem_singleton_self _,
        hidentity.trans hsame.symm, fun final hfinal hsize ↦ hcompiled final (hbox.trans hfinal) hsize⟩
    · exact Or.inl hfound
  · have hsmall : (workspace.constants.box (.function (.compiled routine))).2.size ≤ Word.indexLimit :=
      Nat.le_trans (ConstantTable.Extends.size_le hfinal) hsize
    have hown := hlater.constants.constant?_box hvalue hsmall
    exact ConstantTable.constant?_mono hfinal hown

/-- A new class is made a constant. -/
theorem meets_layoutConstant {workspace : Workspace} {registry : Registry}
    (hvalid : workspace.Valid registry) {identity : Nat} {fields : List String}
    (hless : identity < workspace.nextIdentity) (hnew : registry.layouts identity = none) :
    Meets (constant (.layout ⟨identity, fields⟩)) workspace registry []
      (Refers (.layout ⟨identity, fields⟩) workspace) := by
  let layout : Class := ⟨identity, fields⟩
  let later := withLayout registry layout
  have hextends : registry.Extends later := extends_withLayout hnew
  have hvalue : (Value.layout layout).Valid later [] := if_pos rfl
  have hinline : (Value.layout layout).inlineWord? = none := rfl
  have hlater : workspace.Valid later := by
    refine ⟨hvalid.constants.mono hextends, hvalid.functions, fun identity found hfound ↦ ?_⟩
    simp only [later, withLayout] at hfound
    split_ifs at hfound with hsame
    · rw [hsame]
      exact hless
    · exact hvalid.layouts identity found hfound
  refine ⟨later, ⟨workspace.constants.box_extends (.layout layout), Nat.le_refl _, hextends,
    ⟨hlater.constants.box hinline hvalue, hlater.functions, hlater.layouts⟩,
    fun _ _ hroutine ↦ Or.inl hroutine⟩, rfl, fun final hfinal hsize ↦ ?_⟩
  have hsmall : (workspace.constants.box (.layout layout)).2.size ≤ Word.indexLimit :=
    Nat.le_trans (ConstantTable.Extends.size_le hfinal) hsize
  have hown := hlater.constants.constant?_box hvalue hsmall
  exact ConstantTable.constant?_mono hfinal hown

/-- A name is made a constant. -/
theorem meets_nameConstant {workspace : Workspace} {registry : Registry}
    (hvalid : workspace.Valid registry) (name : String) :
    Meets (constant (.text name)) workspace registry [] fun word after _ ↦
      after.nextIdentity = workspace.nextIdentity ∧ ∀ final : ConstantTable,
        after.constants.Extends final → final.size ≤ Word.indexLimit → final.text? word = some name := by
  have hinline : (Value.text name).inlineWord? = none := rfl
  have hname : (Value.text name).Valid registry [] := trivial
  exact (meets_constant hvalid hinline hname).weaken (List.Subset.refl _) fun _ _ _ hrefers ↦
    ⟨hrefers.1, fun final hextends hsize ↦
      ConstantTable.text?_eq_some_iff.mpr (hrefers.2 final hextends hsize)⟩

/-- A literal gets a word that holds its value. -/
theorem meets_literalWord {workspace : Workspace} {registry : Registry}
    (hvalid : workspace.Valid registry) (value : Literal) :
    Meets (literalWord value) workspace registry [] fun word after _ ↦
      after.nextIdentity = workspace.nextIdentity ∧ ∀ final : ConstantTable,
        after.constants.Extends final → final.size ≤ Word.indexLimit →
        final.value? [] word = some value.toValue := by
  have hboxed : ∀ {boxed : Value}, boxed.inlineWord? = none → boxed.Valid registry [] →
      Meets (constant boxed) workspace registry [] fun word after _ ↦
        after.nextIdentity = workspace.nextIdentity ∧ ∀ final : ConstantTable,
          after.constants.Extends final → final.size ≤ Word.indexLimit →
          final.value? [] word = some boxed :=
    fun hinline hboxed ↦ (meets_constant hvalid hinline hboxed).weaken (List.Subset.refl _)
      fun _ _ _ hrefers ↦ ⟨hrefers.1, fun final hextends hsize ↦
        ConstantTable.value?_of_constant? (hrefers.2 final hextends hsize)⟩
  unfold literalWord
  cases value
  case integer number =>
    dsimp only
    cases hword : Word.ofInteger? number with
    | none => exact hboxed hword trivial
    | some word =>
      refine Meets.pure hvalid ⟨rfl, fun final _ _ ↦ ?_⟩
      obtain ⟨small, hkind, hsmall⟩ := Word.kind_of_ofInteger? hword
      simp only [ConstantTable.value?, hkind, hsmall, Literal.toValue]
  case text content => exact hboxed rfl trivial
  case boolean value => exact hboxed rfl trivial
  case undefined =>
    refine Meets.pure hvalid ⟨rfl, fun final hextends _ ↦ ?_⟩
    exact ConstantTable.value?_undefined _ (hextends _ _ hvalid.constants.undefined)

/-! ### Rows of nodes -/

/-- The compiler is right about nodes whose values are kept. -/
theorem meets_lowerValues {nodes : List Node} (hnodes : ∀ node ∈ nodes, RightFor node) (strict : Bool)
    (slots : SlotTable) {workspace : Workspace} {registry : Registry}
    (hvalid : workspace.Valid registry) :
    Meets (lowerValues strict slots nodes) workspace registry (closuresOf workspace.nextIdentity nodes)
      (LowersPart workspace slots (.values nodes) (sitesOf nodes)) := by
  induction nodes generalizing workspace registry with
  | nil => exact Meets.pure hvalid ⟨rfl, fun _ _ _ ↦ .noValues⟩
  | cons node rest ih =>
    have hrest : ∀ other ∈ rest, RightFor other :=
      fun other hother ↦ hnodes other (List.mem_cons_of_mem _ hother)
    have hfirst := hnodes node List.mem_cons_self strict slots workspace registry hvalid
    rw [lowerValues, closuresOf]
    refine hfirst.bind fun code second later hgrows hcode ↦ ?_
    rw [← hcode.1, ← List.append_nil (closuresOf second.nextIdentity rest)]
    refine (ih hrest hgrows.valid).bind fun restCode third latest hmore hrestCode ↦ ?_
    refine Meets.pure hmore.valid ⟨?_, fun final hextends hsize ↦ ?_⟩
    · rw [hrestCode.1, hcode.1, sitesOf, Nat.add_assoc]
    · have htail := hrestCode.2 final hextends hsize
      rw [hcode.1] at htail
      exact .values (.value (hcode.2 final (hmore.constants.trans hextends) hsize)) htail

/-- The compiler is right about nodes whose values are dropped. -/
theorem meets_lowerStatements {nodes : List Node} (hnodes : ∀ node ∈ nodes, RightFor node) (strict : Bool)
    (slots : SlotTable) {workspace : Workspace} {registry : Registry}
    (hvalid : workspace.Valid registry) :
    Meets (lowerStatements strict slots nodes) workspace registry
      (closuresOf workspace.nextIdentity nodes)
      (LowersPart workspace slots (.statements nodes) (sitesOf nodes)) := by
  induction nodes generalizing workspace registry with
  | nil => exact Meets.pure hvalid ⟨rfl, fun _ _ _ ↦ .noStatements⟩
  | cons node rest ih =>
    have hrest : ∀ other ∈ rest, RightFor other :=
      fun other hother ↦ hnodes other (List.mem_cons_of_mem _ hother)
    have hfirst := hnodes node List.mem_cons_self strict slots workspace registry hvalid
    rw [lowerStatements, closuresOf]
    refine hfirst.bind fun code second later hgrows hcode ↦ ?_
    rw [← hcode.1, ← List.append_nil (closuresOf second.nextIdentity rest)]
    refine (ih hrest hgrows.valid).bind fun restCode third latest hmore hrestCode ↦ ?_
    refine Meets.pure hmore.valid ⟨?_, fun final hextends hsize ↦ ?_⟩
    · rw [hrestCode.1, hcode.1, sitesOf, Nat.add_assoc]
    · have htail := hrestCode.2 final hextends hsize
      rw [hcode.1] at htail
      exact .statements (.statement (hcode.2 final (hmore.constants.trans hextends) hsize)) htail

/-- The compiler is right about the initial values of fields. -/
theorem meets_lowerFields {fields : List (Field Node)} (hfields : ∀ field ∈ fields, RightFor field.value)
    (strict : Bool) (slots : SlotTable) {workspace : Workspace} {registry : Registry}
    (hvalid : workspace.Valid registry) :
    Meets (lowerFields strict slots fields) workspace registry
      (fieldClosures workspace.nextIdentity fields)
      (LowersPart workspace slots (.fields fields) (fieldSites fields)) := by
  induction fields generalizing workspace registry with
  | nil => exact Meets.pure hvalid ⟨rfl, fun _ _ _ ↦ .noFields⟩
  | cons field rest ih =>
    have hrest : ∀ other ∈ rest, RightFor other.value :=
      fun other hother ↦ hfields other (List.mem_cons_of_mem _ hother)
    have hfirst := hfields field List.mem_cons_self strict slots workspace registry hvalid
    rw [lowerFields, fieldClosures]
    refine hfirst.bind fun code second later hgrows hcode ↦ ?_
    rw [← hcode.1, ← List.append_nil (fieldClosures second.nextIdentity rest)]
    refine (ih hrest hgrows.valid).bind fun restCode third latest hmore hrestCode ↦ ?_
    refine Meets.pure hmore.valid ⟨?_, fun final hextends hsize ↦ ?_⟩
    · rw [hrestCode.1, hcode.1, fieldSites, Nat.add_assoc]
    · have htail := hrestCode.2 final hextends hsize
      rw [hcode.1] at htail
      exact .fields (.value (hcode.2 final (hmore.constants.trans hextends) hsize)) htail

/-! ### Functions -/

/-- The compiler is right about a function when it is right about its body. -/
theorem meets_routineOf {body : Block Node} (hbody : ∀ node ∈ body.nodes, RightFor node) (strict : Bool)
    (name : String) (parameters : List String) (line : UInt32) {workspace : Workspace}
    {registry : Registry} (hvalid : workspace.Valid registry) :
    Meets (routineOf strict name parameters body line fun slots ↦ lowerStatements strict slots body.nodes)
      workspace registry (closuresOf workspace.nextIdentity body.nodes) fun routine after later ↦
        routine.identity = workspace.nextIdentity + sitesOf body.nodes ∧
          after.nextIdentity = routine.identity + 1 ∧ later.functions routine.identity = none ∧
          routine.unit.lastLine? = some (endLine body line) ∧
          ∀ final : ConstantTable, after.constants.Extends final → final.size ≤ Word.indexLimit →
            (Closure.ofBody workspace.nextIdentity name parameters body).Compiled final routine := by
  unfold routineOf
  cases hslots : SlotTable.allocate parameters body strict line with
  | error error => exact Meets.throw hvalid
  | ok slots =>
    dsimp only
    rw [← List.append_nil (closuresOf workspace.nextIdentity body.nodes)]
    refine (meets_lowerStatements hbody strict slots hvalid).bind fun code second later hgrows hcode ↦ ?_
    refine (meets_freshIdentity hgrows.valid).bind fun identity third latest hmore hidentity ↦ ?_
    obtain ⟨hsame, hnext, hconstants, hfunctions, -⟩ := hidentity
    refine Meets.pure hmore.valid ⟨?_, ?_, hfunctions, Fragment.lastLine?_assemble _ _ _ _,
      fun final hextends hsize ↦ ?_⟩
    · rw [hsame, hcode.1]
    · rw [hnext, hsame]
    · rw [hconstants] at hextends
      refine ⟨?_, rfl, strict, line, endLine body line, slots, code, hslots,
        hcode.2 final hextends hsize, rfl⟩
      rw [hsame, hcode.1]
      rfl

/-! ### Nodes -/

/-- The compiler is right about every node. -/
theorem meets_lowerNode (node : Node) : RightFor node := by
  induction node using Node.induction
  case block body hbody =>
    intro strict slots workspace registry hvalid
    rw [lowerNode, Node.closures, Node.sites]
    exact (meets_lowerStatements hbody strict slots hvalid).weaken (List.Subset.refl _)
      fun code after later hcode ↦ ⟨hcode.1, fun final hextends hsize ↦ .block (hcode.2 final hextends hsize)⟩
  case literal value line =>
    intro strict slots workspace registry hvalid
    rw [lowerNode, Node.closures, Node.sites, ← List.append_nil ([] : List Closure)]
    refine (meets_literalWord hvalid value).bind fun word second later hgrows hword ↦ ?_
    exact Meets.pure hgrows.valid ⟨hword.1, fun final hextends hsize ↦
      .literal (hword.2 final hextends hsize)⟩
  case call callee arguments line hcallee harguments =>
    intro strict slots workspace registry hvalid
    rw [lowerNode, Node.closures, Node.sites]
    refine (hcallee strict slots workspace registry hvalid).bind fun code second later hgrows hcode ↦ ?_
    rw [← hcode.1, ← List.append_nil (closuresOf second.nextIdentity arguments)]
    refine (meets_lowerValues harguments strict slots hgrows.valid).bind
      fun argumentCode third latest hmore hargumentCode ↦ ?_
    refine Meets.pure hmore.valid ⟨?_, fun final hextends hsize ↦ ?_⟩
    · rw [hargumentCode.1, hcode.1, Nat.add_assoc]
    · have htail := hargumentCode.2 final hextends hsize
      rw [hcode.1] at htail
      exact .call (.value (hcode.2 final (hmore.constants.trans hextends) hsize)) htail
  case access name line =>
    intro strict slots workspace registry hvalid
    rw [lowerNode, Node.closures, Node.sites]
    cases hslot : slots.slotOf? name with
    | some slot => exact Meets.pure hvalid ⟨rfl, fun _ _ _ ↦ .localAccess hslot⟩
    | none =>
      dsimp only
      rw [← List.append_nil ([] : List Closure)]
      refine (meets_nameConstant hvalid name).bind fun word second later hgrows hword ↦ ?_
      exact Meets.pure hgrows.valid ⟨hword.1, fun final hextends hsize ↦
        .globalAccess hslot (hword.2 final hextends hsize)⟩
  case assignment name value declares line hvalue =>
    intro strict slots workspace registry hvalid
    rw [lowerNode, Node.closures, Node.sites, ← List.append_nil (value.closures workspace.nextIdentity)]
    refine (hvalue strict slots workspace registry hvalid).bind fun code second later hgrows hcode ↦ ?_
    cases hslot : slots.slotOf? name with
    | some slot =>
      exact Meets.pure hgrows.valid ⟨hcode.1, fun final hextends hsize ↦
        .assignment (.value (hcode.2 final hextends hsize)) hslot⟩
    | none => exact Meets.throw hgrows.valid
  case function name parameters body line hbody =>
    intro strict slots workspace registry hvalid
    rw [lowerNode, Node.closures, Node.sites]
    refine (meets_routineOf hbody strict (name.getD anonymous) parameters line hvalid).bind
      fun routine second later hgrows hroutine ↦ ?_
    obtain ⟨hidentity, hnext, hnew, hline, hcompiled⟩ := hroutine
    rw [← List.append_nil [Closure.ofBody workspace.nextIdentity (name.getD anonymous) parameters body]]
    refine (meets_routineConstant hgrows.valid (by omega) hnew hcompiled hidentity.symm).bind
      fun word third latest hmore hword ↦ ?_
    cases name with
    | none =>
      refine Meets.pure hmore.valid ⟨?_, fun final hextends hsize ↦ ?_⟩
      · rw [hword.1, hnext, hidentity, Nat.add_assoc]
      · exact .anonymous (hword.2 final hextends hsize) hidentity hline
    | some bound =>
      dsimp only
      rw [← List.append_nil ([] : List Closure)]
      refine (meets_nameConstant hmore.valid bound).bind fun nameWord fourth last hlast hnameWord ↦ ?_
      refine Meets.pure hlast.valid ⟨?_, fun final hextends hsize ↦ ?_⟩
      · rw [hnameWord.1, hword.1, hnext, hidentity, Nat.add_assoc]
      · exact .named (hword.2 final (hlast.constants.trans hextends) hsize) hidentity hline
          (hnameWord.2 final hextends hsize)
  case ret value line hvalue =>
    intro strict slots workspace registry hvalid
    rw [lowerNode, Node.closures, Node.sites, ← List.append_nil (value.closures workspace.nextIdentity)]
    refine (hvalue strict slots workspace registry hvalid).bind fun code second later hgrows hcode ↦ ?_
    exact Meets.pure hgrows.valid ⟨hcode.1, fun final hextends hsize ↦
      .ret (.value (hcode.2 final hextends hsize))⟩
  case conditional condition thenBlock elseBlock line hcondition hthen helse =>
    intro strict slots workspace registry hvalid
    rw [lowerNode, Node.closures, Node.sites, List.append_assoc]
    refine (hcondition strict slots workspace registry hvalid).bind fun code second later hgrows hcode ↦ ?_
    rw [← hcode.1]
    refine (meets_lowerStatements hthen strict slots hgrows.valid).bind
      fun thenCode third latest hmore hthenCode ↦ ?_
    rw [← hthenCode.1, ← List.append_nil (closuresOf third.nextIdentity elseBlock.nodes)]
    refine (meets_lowerStatements helse strict slots hmore.valid).bind
      fun elseCode fourth last hlast helseCode ↦ ?_
    refine Meets.pure hlast.valid ⟨?_, fun final hextends hsize ↦ ?_⟩
    · rw [helseCode.1, hthenCode.1, hcode.1, Nat.add_assoc, Nat.add_assoc, Nat.add_assoc]
    · have hsecond := hthenCode.2 final (hlast.constants.trans hextends) hsize
      have hthird := helseCode.2 final hextends hsize
      rw [hcode.1] at hsecond
      rw [hthenCode.1, hcode.1] at hthird
      exact .conditional
        (.value (hcode.2 final (hmore.constants.trans (hlast.constants.trans hextends)) hsize)) hsecond hthird
  case object fields line hfields =>
    intro strict slots workspace registry hvalid
    rw [lowerNode, Node.closures, Node.sites]
    cases hrepeated : firstRepeated? [] (fields.map Field.name) with
    | some name => exact Meets.throw hvalid
    | none =>
      dsimp only
      rw [← List.append_nil (fieldClosures workspace.nextIdentity fields)]
      refine (meets_lowerFields hfields strict slots hvalid).bind fun code second later hgrows hcode ↦ ?_
      rw [← List.append_nil ([] : List Closure)]
      refine (meets_freshIdentity hgrows.valid).bind fun identity third latest hmore hidentity ↦ ?_
      obtain ⟨hsame, hnext, -, -, hnew⟩ := hidentity
      rw [← List.append_nil ([] : List Closure)]
      have hless : identity < third.nextIdentity := by omega
      refine (meets_layoutConstant hmore.valid hless hnew).bind fun word fourth last hlast hword ↦ ?_
      refine Meets.pure hlast.valid ⟨?_, fun final hextends hsize ↦ ?_⟩
      · rw [hword.1, hnext, hcode.1, Nat.add_assoc]
      · refine .object (hcode.2 final (hmore.constants.trans (hlast.constants.trans hextends)) hsize) ?_
        rw [ConstantTable.layout?_eq_some_iff, hword.2 final hextends hsize, hsame, hcode.1]
  case fieldAccess receiver name line hreceiver =>
    intro strict slots workspace registry hvalid
    rw [lowerNode, Node.closures, Node.sites, ← List.append_nil (receiver.closures workspace.nextIdentity)]
    refine (hreceiver strict slots workspace registry hvalid).bind fun code second later hgrows hcode ↦ ?_
    rw [← List.append_nil ([] : List Closure)]
    refine (meets_nameConstant hgrows.valid name).bind fun word third latest hmore hword ↦ ?_
    exact Meets.pure hmore.valid ⟨hword.1.trans hcode.1, fun final hextends hsize ↦
      .fieldAccess (.value (hcode.2 final (hmore.constants.trans hextends) hsize))
        (hword.2 final hextends hsize)⟩
  case fieldAssignment receiver name value line hreceiver hvalue =>
    intro strict slots workspace registry hvalid
    rw [lowerNode, Node.closures, Node.sites]
    refine (hreceiver strict slots workspace registry hvalid).bind fun code second later hgrows hcode ↦ ?_
    rw [← hcode.1, ← List.append_nil (value.closures second.nextIdentity)]
    refine (hvalue strict slots second later hgrows.valid).bind
      fun valueCode third latest hmore hvalueCode ↦ ?_
    rw [← List.append_nil ([] : List Closure)]
    refine (meets_nameConstant hmore.valid name).bind fun word fourth last hlast hword ↦ ?_
    refine Meets.pure hlast.valid ⟨?_, fun final hextends hsize ↦ ?_⟩
    · rw [hword.1, hvalueCode.1, hcode.1, Nat.add_assoc]
    · have hsecond := hvalueCode.2 final (hlast.constants.trans hextends) hsize
      rw [hcode.1] at hsecond
      exact .fieldAssignment
        (.value (hcode.2 final (hmore.constants.trans (hlast.constants.trans hextends)) hsize))
        (.value hsecond) (hword.2 final hextends hsize)
  case methodCall receiver name arguments line hreceiver harguments =>
    intro strict slots workspace registry hvalid
    rw [lowerNode, Node.closures, Node.sites]
    refine (hreceiver strict slots workspace registry hvalid).bind fun code second later hgrows hcode ↦ ?_
    rw [← hcode.1, ← List.nil_append (closuresOf second.nextIdentity arguments)]
    refine (meets_nameConstant hgrows.valid name).bind fun word third latest hmore hword ↦ ?_
    rw [← hword.1, ← List.append_nil (closuresOf third.nextIdentity arguments)]
    refine (meets_lowerValues harguments strict slots hmore.valid).bind
      fun argumentCode fourth last hlast hargumentCode ↦ ?_
    refine Meets.pure hlast.valid ⟨?_, fun final hextends hsize ↦ ?_⟩
    · rw [hargumentCode.1, hword.1, hcode.1, Nat.add_assoc]
    · have htail := hargumentCode.2 final hextends hsize
      rw [hword.1, hcode.1] at htail
      exact .methodCall
        (.value (hcode.2 final (hmore.constants.trans (hlast.constants.trans hextends)) hsize))
        (hword.2 final (hlast.constants.trans hextends) hsize) htail

end Lowering

/-- The compiler is right about scripts. The routine of the body is new and not yet known to anybody. -/
theorem meets_compileScript (strict : Bool) (script : Script) {workspace : Workspace}
    {registry : Registry} (hvalid : workspace.Valid registry) :
    Lowering.Meets (compileScript strict script) workspace registry
      (closuresOf workspace.nextIdentity script.body.nodes) fun routine after later ↦
        routine.identity = workspace.nextIdentity + sitesOf script.body.nodes ∧
          after.nextIdentity = routine.identity + 1 ∧ later.functions routine.identity = none ∧
          routine.unit.lastLine? = some (Lowering.endLine script.body script.body.line) ∧
          ∀ final : ConstantTable, after.constants.Extends final → final.size ≤ Word.indexLimit →
            (Closure.ofBody workspace.nextIdentity "main" [] script.body).Compiled final routine :=
  Lowering.meets_routineOf (fun node _ ↦ Lowering.meets_lowerNode node) strict "main" []
    script.body.line hvalid

end ScriptMachine
