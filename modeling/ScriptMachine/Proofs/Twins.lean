import ScriptMachine.Proofs.AlikeCode
import ScriptMachine.Proofs.Lowered
import ScriptMachine.Proofs.SlotLayout

/-!
# Programs compiled twice

When a program is compiled in two places, its sites get other identities and its constants other words. A `Matching`
says which identities of one place stand for which of the other. Two functions are twins when they are the same
function of the source and their sites are matched (`Closure.Twin`); so are the function literals of a script that is
compiled twice, one by one (`Script.twins`). The code that belongs to the same tree in both places is alike
(`Lowered.alike`), and twins are compiled to functions that do the same (`Closure.Twin.matches_of`).
-/

set_option autoImplicit false
set_option relaxedAutoImplicit false

namespace ScriptMachine

/-! ### Matched identities -/

/-- Which identities of functions and classes in one run stand for which in another. -/
abbrev Matching :=
  Nat → Nat → Prop

namespace Matching

/-- No identity is matched with two others. -/
def OneToOne (matching : Matching) : Prop :=
  ∀ first second other another : Nat, matching first second → matching other another →
    (first = other ↔ second = another)

/-- A number of identities from two first ones on are matched one by one. -/
def Along (matching : Matching) (first first' count : Nat) : Prop :=
  ∀ position : Nat, position < count → matching (first + position) (first' + position)

variable {matching : Matching} {first first' count more : Nat}

theorem Along.left (halong : matching.Along first first' (count + more)) : matching.Along first first' count :=
  fun position hless ↦ halong position (by omega)

theorem Along.right (halong : matching.Along first first' (count + more)) :
    matching.Along (first + count) (first' + count) more := by
  intro position hless
  rw [Nat.add_assoc, Nat.add_assoc]
  exact halong (count + position) (by omega)

/-- The identity behind some others is matched as well. -/
theorem Along.last (halong : matching.Along first first' (count + 1)) :
    matching (first + count) (first' + count) :=
  halong count (Nat.lt_succ_self count)

end Matching

/-! ### Twins -/

/-- Two functions are the same function of the source, and their sites are matched. -/
structure Closure.Twin (matching : Matching) (closure closure' : Closure) : Prop where
  identity : matching closure.identity closure'.identity
  name : closure.name = closure'.name
  parameters : closure.parameters = closure'.parameters
  body : closure.body = closure'.body
  sites : matching.Along closure.firstSite closure'.firstSite (sitesOf closure.body.nodes)

section Twins

variable {matching : Matching}

/-- Functions stay twins when more identities are matched. -/
theorem Closure.Twin.mono {closure closure' : Closure} (htwin : closure.Twin matching closure') {larger : Matching}
    (hlarger : ∀ first second : Nat, matching first second → larger first second) :
    closure.Twin larger closure' :=
  ⟨hlarger _ _ htwin.identity, htwin.name, htwin.parameters, htwin.body,
    fun position hless ↦ hlarger _ _ (htwin.sites position hless)⟩

/-- The function of a body has a twin where the sites of the body are matched. -/
theorem Closure.twin_ofBody {first first' : Nat} (name : String) (parameters : List String) (body : Block Node)
    (halong : matching.Along first first' (sitesOf body.nodes + 1)) :
    (Closure.ofBody first name parameters body).Twin matching (Closure.ofBody first' name parameters body) :=
  ⟨halong.last, rfl, rfl, rfl, halong.left⟩

/-- The function literals of several nodes have twins when those of each node do. -/
theorem twins_closuresOf {nodes : List Node}
    (hnodes : ∀ node ∈ nodes, ∀ first first' : Nat, matching.Along first first' node.sites →
      List.Forall₂ (Closure.Twin matching) (node.closures first) (node.closures first'))
    {first first' : Nat} (halong : matching.Along first first' (sitesOf nodes)) :
    List.Forall₂ (Closure.Twin matching) (closuresOf first nodes) (closuresOf first' nodes) := by
  induction nodes generalizing first first' with
  | nil =>
    rw [closuresOf, closuresOf]
    exact .nil
  | cons node rest ih =>
    rw [sitesOf] at halong
    rw [closuresOf, closuresOf]
    exact List.rel_append (hnodes node List.mem_cons_self first first' halong.left)
      (ih (fun other hother ↦ hnodes other (List.mem_cons_of_mem _ hother)) halong.right)

/-- The function literals in the initial values of fields have twins when those of each value do. -/
theorem twins_fieldClosures {fields : List (Field Node)}
    (hfields : ∀ field ∈ fields, ∀ first first' : Nat, matching.Along first first' field.value.sites →
      List.Forall₂ (Closure.Twin matching) (field.value.closures first) (field.value.closures first'))
    {first first' : Nat} (halong : matching.Along first first' (fieldSites fields)) :
    List.Forall₂ (Closure.Twin matching) (fieldClosures first fields) (fieldClosures first' fields) := by
  induction fields generalizing first first' with
  | nil =>
    rw [fieldClosures, fieldClosures]
    exact .nil
  | cons field rest ih =>
    rw [fieldSites] at halong
    rw [fieldClosures, fieldClosures]
    exact List.rel_append (hfields field List.mem_cons_self first first' halong.left)
      (ih (fun other hother ↦ hfields other (List.mem_cons_of_mem _ hother)) halong.right)

/-- The function literals of a node have twins where the sites of the node are matched. -/
theorem Node.twins (node : Node) :
    ∀ first first' : Nat, matching.Along first first' node.sites →
      List.Forall₂ (Closure.Twin matching) (node.closures first) (node.closures first') := by
  induction node using Node.induction with
  | block body hbody =>
    intro first first' halong
    rw [Node.sites] at halong
    rw [Node.closures, Node.closures]
    exact twins_closuresOf hbody halong
  | literal value line | access name line =>
    intro first first' _
    rw [Node.closures, Node.closures]
    exact .nil
  | call callee arguments line hcallee harguments =>
    intro first first' halong
    rw [Node.sites] at halong
    rw [Node.closures, Node.closures]
    exact List.rel_append (hcallee _ _ halong.left) (twins_closuresOf harguments halong.right)
  | assignment name value declares line hvalue | ret value line hvalue =>
    intro first first' halong
    rw [Node.sites] at halong
    rw [Node.closures, Node.closures]
    exact hvalue _ _ halong
  | function name parameters body line hbody =>
    intro first first' halong
    rw [Node.sites] at halong
    rw [Node.closures, Node.closures]
    exact List.rel_append (twins_closuresOf hbody halong.left)
      (.cons (Closure.twin_ofBody _ _ _ halong) .nil)
  | conditional condition thenBlock elseBlock line hcondition hthen helse =>
    intro first first' halong
    rw [Node.sites] at halong
    rw [Node.closures, Node.closures]
    have hfront := List.rel_append (hcondition _ _ halong.left.left) (twins_closuresOf hthen halong.left.right)
    have hlast := halong.right
    rw [← Nat.add_assoc, ← Nat.add_assoc] at hlast
    exact List.rel_append hfront (twins_closuresOf helse hlast)
  | object fields line hfields =>
    intro first first' halong
    rw [Node.sites] at halong
    rw [Node.closures, Node.closures]
    exact twins_fieldClosures hfields halong.left
  | fieldAccess receiver name line hreceiver =>
    intro first first' halong
    rw [Node.sites] at halong
    rw [Node.closures, Node.closures]
    exact hreceiver _ _ halong
  | fieldAssignment receiver name value line hreceiver hvalue =>
    intro first first' halong
    rw [Node.sites] at halong
    rw [Node.closures, Node.closures]
    exact List.rel_append (hreceiver _ _ halong.left) (hvalue _ _ halong.right)
  | methodCall receiver name arguments line hreceiver harguments =>
    intro first first' halong
    rw [Node.sites] at halong
    rw [Node.closures, Node.closures]
    exact List.rel_append (hreceiver _ _ halong.left) (twins_closuresOf harguments halong.right)

/-- The functions of a script have twins where the sites of the script are matched. -/
theorem Script.twins (script : Script) {first first' : Nat} (halong : matching.Along first first' script.sites) :
    List.Forall₂ (Closure.Twin matching) (script.closures first) (script.closures first') :=
  List.rel_append (twins_closuresOf (fun node _ ↦ node.twins) halong.left)
    (.cons (Closure.twin_ofBody _ _ _ halong) .nil)

/-- Twins are found by matched identities. -/
theorem find?_twin (hone : matching.OneToOne) {closures closures' : List Closure}
    (htwins : List.Forall₂ (Closure.Twin matching) closures closures') {identity identity' : Nat}
    (hmatched : matching identity identity') :
    Option.Rel (Closure.Twin matching) (closures.find? fun other ↦ other.identity == identity)
      (closures'.find? fun other ↦ other.identity == identity') := by
  induction htwins with
  | nil => exact .none
  | @cons closure closure' rest rest' htwin _ ih =>
    rw [List.find?_cons, List.find?_cons]
    have hsame : (closure.identity == identity) = (closure'.identity == identity') := by
      rw [Bool.eq_iff_iff, beq_iff_eq, beq_iff_eq]
      exact hone _ _ _ _ htwin.identity hmatched
    rw [hsame]
    cases closure'.identity == identity'
    · exact ih
    · exact .some htwin

end Twins

/-! ### Code of the same tree -/

/-- The number of literals in a part of a program. -/
def Part.sites : Part → Nat
  | .node tree | .value tree | .statement tree => tree.sites
  | .values trees | .statements trees => sitesOf trees
  | .fields members => fieldSites members

/-- Functions and classes with matched identities stand for each other, where the constants of two runs know them. -/
structure Likeness.Covers (likeness : Likeness) (matching : Matching) (table table' : ConstantTable) : Prop where
  undefined : table.entries[0]? = some .undefined
  undefined' : table'.entries[0]? = some .undefined
  functions : ∀ {routine routine' : Routine}, .function (.compiled routine) ∈ table.entries →
    .function (.compiled routine') ∈ table'.entries → matching routine.identity routine'.identity →
    routine.unit.lastLine? = routine'.unit.lastLine? →
    likeness.functions (.compiled routine) (.compiled routine')
  layouts : ∀ {identity identity' : Nat} (fields : List String), matching identity identity' →
    likeness.layouts ⟨identity, fields⟩ ⟨identity', fields⟩

section Code

variable {likeness : Likeness} {matching : Matching} {table table' : ConstantTable}

namespace Fragment.Alike

/-- The same instruction is alike in both places if it needs no constant. -/
theorem same {instruction : Instruction} (operation : Operation) (line : UInt32)
    (hoperation : ∀ table : ConstantTable, instruction.operation? table = some operation) (hplain : operation.IsPlain)
    (hnext : ∀ next : Nat, ∀ target ∈ operation.successors next, target = next) :
    Alike likeness table table' [.plain instruction line] [.plain instruction line] :=
  .plain line rfl (hoperation table) (hoperation table') (.plain hplain) hnext

/-- Instructions that push alike values are alike. -/
theorem constant {word word' : Word} {value value' : Value} (line : UInt32)
    (hword : table.value? [] word = some value) (hword' : table'.value? [] word' = some value')
    (hlike : value.Like likeness value') :
    Alike likeness table table' [.plain (.constant word) line] [.plain (.constant word') line] := by
  refine .plain line rfl ?_ ?_ (.push hlike) fun _ _ htarget ↦ List.mem_singleton.mp htarget
  · rw [Instruction.operation?, hword]
    rfl
  · rw [Instruction.operation?, hword']
    rfl

/-- Instructions of a kind that goes with a name are alike when their words stand for the same name. -/
theorem named {make : Word → Instruction} (operation : String → Operation)
    (hmake : ∀ (table : ConstantTable) (word : Word), (make word).operation? table = (table.text? word).map operation)
    (hopcode : ∀ word word' : Word, (make word).opcode = (make word').opcode)
    (hplain : ∀ name : String, (operation name).IsPlain)
    (hnext : ∀ (name : String) (next : Nat), (operation name).successors next = [next]) {word word' : Word}
    {name : String} (line : UInt32) (hword : table.text? word = some name) (hword' : table'.text? word' = some name) :
    Alike likeness table table' [.plain (make word) line] [.plain (make word') line] := by
  refine .plain line (hopcode _ _) ?_ ?_ (.plain (hplain name)) fun next target htarget ↦ ?_
  · rw [hmake, hword]
    rfl
  · rw [hmake, hword']
    rfl
  · rw [hnext] at htarget
    exact List.mem_singleton.mp htarget

theorem lookup {word word' : Word} {name : String} (line : UInt32) (hword : table.text? word = some name)
    (hword' : table'.text? word' = some name) :
    Alike likeness table table' [.plain (.lookup word) line] [.plain (.lookup word') line] :=
  named .lookup (fun _ _ ↦ rfl) (fun _ _ ↦ rfl) (fun _ ↦ trivial) (fun _ _ ↦ rfl) line hword hword'

theorem register {word word' : Word} {name : String} (line : UInt32) (hword : table.text? word = some name)
    (hword' : table'.text? word' = some name) :
    Alike likeness table table' [.plain (.register word) line] [.plain (.register word') line] :=
  named .register (fun _ _ ↦ rfl) (fun _ _ ↦ rfl) (fun _ ↦ trivial) (fun _ _ ↦ rfl) line hword hword'

theorem get {word word' : Word} {name : String} (line : UInt32) (hword : table.text? word = some name)
    (hword' : table'.text? word' = some name) :
    Alike likeness table table' [.plain (.get word) line] [.plain (.get word') line] :=
  named .get (fun _ _ ↦ rfl) (fun _ _ ↦ rfl) (fun _ ↦ trivial) (fun _ _ ↦ rfl) line hword hword'

theorem put {word word' : Word} {name : String} (line : UInt32) (hword : table.text? word = some name)
    (hword' : table'.text? word' = some name) :
    Alike likeness table table' [.plain (.put word) line] [.plain (.put word') line] :=
  named .put (fun _ _ ↦ rfl) (fun _ _ ↦ rfl) (fun _ ↦ trivial) (fun _ _ ↦ rfl) line hword hword'

/-- Instructions that make objects are alike when their classes stand for each other. -/
theorem new {word word' : Word} {layout layout' : Class} (line : UInt32) (hword : table.layout? word = some layout)
    (hword' : table'.layout? word' = some layout') (hlayouts : likeness.layouts layout layout') :
    Alike likeness table table' [.plain (.new word) line] [.plain (.new word') line] := by
  refine .plain line rfl ?_ ?_ (.new hlayouts) fun _ _ htarget ↦ List.mem_singleton.mp htarget
  · rw [Instruction.operation?, hword]
    rfl
  · rw [Instruction.operation?, hword']
    rfl

/-- The code that pushes undefined is alike. -/
theorem undefinedAt (hcovers : likeness.Covers matching table table') (line : UInt32) :
    Alike likeness table table' (Lowering.undefinedAt line) (Lowering.undefinedAt line) :=
  .constant line (ConstantTable.value?_undefined _ hcovers.undefined)
    (ConstantTable.value?_undefined _ hcovers.undefined') .undefined

end Fragment.Alike

/-- The words of two functions with matched identities push alike values. -/
theorem Likeness.Covers.function (hcovers : likeness.Covers matching table table') {word word' : Word}
    {routine routine' : Routine} {last : UInt32} (line : UInt32)
    (hword : table.constant? word = some (.function (.compiled routine)))
    (hword' : table'.constant? word' = some (.function (.compiled routine')))
    (hmatched : matching routine.identity routine'.identity) (hline : routine.unit.lastLine? = some last)
    (hline' : routine'.unit.lastLine? = some last) :
    Fragment.Alike likeness table table' [.plain (.constant word) line] [.plain (.constant word') line] :=
  .constant line (ConstantTable.value?_of_constant? hword) (ConstantTable.value?_of_constant? hword')
    (.function (hcovers.functions (ConstantTable.mem_of_constant? hword) (ConstantTable.mem_of_constant? hword')
      hmatched (hline.trans hline'.symm)))

/-- The code of the same part of a program is alike in both places. -/
theorem Lowered.alike {slots : SlotTable} {first first' : Nat} {part : Part} {code code' : Fragment}
    (hlowered : Lowered table slots first part code) (hlowered' : Lowered table' slots first' part code')
    (hcovers : likeness.Covers matching table table') (halong : matching.Along first first' part.sites) :
    Fragment.Alike likeness table table' code code' := by
  have hstraight : ∀ next : Nat, ∀ target ∈ [next], target = next := fun _ _ htarget ↦ List.mem_singleton.mp htarget
  induction hlowered generalizing first' code' with
  | block _ ih =>
    cases hlowered' with
    | block hbody' => exact ih hbody' halong
  | @literal first value line word hword =>
    cases hlowered' with
    | literal hword' => exact .constant _ hword hword' (Value.IsScalar.like (by cases value <;> trivial))
  | localAccess hslot =>
    cases hlowered' with
    | localAccess hslot' =>
      obtain rfl := Option.some.inj (hslot.symm.trans hslot')
      exact .same (.load _) _ (fun _ ↦ rfl) trivial hstraight
    | globalAccess hslot' => cases hslot.symm.trans hslot'
  | globalAccess hslot hword =>
    cases hlowered' with
    | localAccess hslot' => cases hslot.symm.trans hslot'
    | globalAccess _ hword' => exact .lookup _ hword hword'
  | assignment _ hslot ih =>
    cases hlowered' with
    | assignment hvalue' hslot' =>
      obtain rfl := Option.some.inj (hslot.symm.trans hslot')
      exact .append (ih hvalue' halong) (.same (.store _) _ (fun _ ↦ rfl) trivial hstraight)
  | anonymous hword hidentity hline =>
    cases hlowered' with
    | anonymous hword' hidentity' hline' =>
      exact hcovers.function _ hword hword' (hidentity ▸ hidentity' ▸ halong.last) hline hline'
  | named hword hidentity hline hname =>
    cases hlowered' with
    | named hword' hidentity' hline' hname' =>
      exact .append (hcovers.function _ hword hword' (hidentity ▸ hidentity' ▸ halong.last) hline hline')
        (.append (.same .duplicate _ (fun _ ↦ rfl) trivial hstraight) (.register _ hname hname'))
  | call _ _ ihCallee ihArguments =>
    cases hlowered' with
    | call hcallee' harguments' =>
      exact .append (.append (.append (ihCallee hcallee' halong.left) (.undefinedAt hcovers _))
        (ihArguments harguments' halong.right)) (.same (.call _) _ (fun _ ↦ rfl) trivial hstraight)
  | methodCall _ hword _ ihReceiver ihArguments =>
    cases hlowered' with
    | methodCall hreceiver' hword' harguments' =>
      refine .append (.append (.append (ihReceiver hreceiver' halong.left) ?_) (ihArguments harguments' halong.right))
        (.same (.call _) _ (fun _ ↦ rfl) trivial hstraight)
      exact .append (.same .duplicate _ (fun _ ↦ rfl) trivial hstraight)
        (.append (.get _ hword hword') (.same .swap _ (fun _ ↦ rfl) trivial hstraight))
  | ret _ ih =>
    cases hlowered' with
    | ret hvalue' => exact .append (ih hvalue' halong) (.same .ret _ (fun _ ↦ rfl) trivial (by rintro _ _ ⟨⟩))
  | conditional _ _ _ ihCondition ihThen ihElse =>
    cases hlowered' with
    | conditional hcondition' hthen' helse' =>
      have hlast := halong.right
      rw [← Nat.add_assoc, ← Nat.add_assoc] at hlast
      exact .branch _ (ihCondition hcondition' halong.left.left) (ihThen hthen' halong.left.right)
        (ihElse helse' hlast)
  | object _ hword ih =>
    cases hlowered' with
    | object hfields' hword' =>
      exact .append (ih hfields' halong.left) (.new _ hword hword' (hcovers.layouts _ halong.last))
  | fieldAccess _ hword ih =>
    cases hlowered' with
    | fieldAccess hreceiver' hword' => exact .append (ih hreceiver' halong) (.get _ hword hword')
  | fieldAssignment _ _ hword ihReceiver ihValue =>
    cases hlowered' with
    | fieldAssignment hreceiver' hvalue' hword' =>
      exact .append (.append (ihReceiver hreceiver' halong.left) (ihValue hvalue' halong.right))
        (.put _ hword hword')
  | value _ ih =>
    cases hlowered' with
    | value hnode' =>
      unfold Lowering.valueOf
      split_ifs
      · exact .append (ih hnode' halong) (.undefinedAt hcovers _)
      · exact ih hnode' halong
  | statement _ ih =>
    cases hlowered' with
    | statement hnode' =>
      unfold Lowering.statementOf
      split_ifs
      · exact ih hnode' halong
      · exact .append (ih hnode' halong) (.same .pop _ (fun _ ↦ rfl) trivial hstraight)
  | noValues =>
    cases hlowered' with
    | noValues => exact .nil
  | values _ _ ihNode ihRest =>
    cases hlowered' with
    | values hnode' hrest' => exact .append (ihNode hnode' halong.left) (ihRest hrest' halong.right)
  | noStatements =>
    cases hlowered' with
    | noStatements => exact .nil
  | statements _ _ ihNode ihRest =>
    cases hlowered' with
    | statements hnode' hrest' => exact .append (ihNode hnode' halong.left) (ihRest hrest' halong.right)
  | noFields =>
    cases hlowered' with
    | noFields => exact .nil
  | fields _ _ ihNode ihRest =>
    cases hlowered' with
    | fields hnode' hrest' => exact .append (ihNode hnode' halong.left) (ihRest hrest' halong.right)

/-- Twins are compiled to alike code, before a return that is the same. -/
theorem Closure.Twin.exists_alike {closure closure' : Closure} (htwin : closure.Twin matching closure')
    (hcovers : likeness.Covers matching table table') {routine routine' : Routine}
    (hcompiled : closure.Compiled table routine) (hcompiled' : closure'.Compiled table' routine')
    (hline : routine.unit.lastLine? = routine'.unit.lastLine?) :
    ∃ (slots : SlotTable) (last : UInt32) (body body' : Fragment), Fragment.Alike likeness table table' body body' ∧
      routine.unit = Fragment.assemble (body ++ [.plain .ret last]) (closure.parameters.length + 1) slots.size ∧
      routine'.unit = Fragment.assemble (body' ++ [.plain .ret last]) (closure.parameters.length + 1) slots.size := by
  obtain ⟨strict, line, last, slots, code, hslots, hlowered, hunit⟩ := hcompiled.unit
  obtain ⟨strict', line', last', slots', code', hslots', hlowered', hunit'⟩ := hcompiled'.unit
  rw [← htwin.parameters, ← htwin.body] at hslots'
  obtain rfl := SlotTable.allocate_unique hslots hslots'
  rw [← htwin.body] at hlowered'
  obtain rfl : last = last' := by
    rw [hunit, hunit', Fragment.lastLine?_assemble, Fragment.lastLine?_assemble] at hline
    exact Option.some.inj hline
  rw [← htwin.parameters] at hunit'
  exact ⟨slots, last, _, _, .append (hlowered.alike hlowered' hcovers htwin.sites) (.undefinedAt hcovers last), hunit,
    hunit'⟩

/-- Code stays alike with a return at its end. -/
theorem Fragment.Alike.concat_ret {code code' : Fragment} (halike : Alike likeness table table' code code')
    (line : UInt32) : Alike likeness table table' (code ++ [.plain .ret line]) (code' ++ [.plain .ret line]) :=
  .append halike (.same .ret line (fun _ ↦ rfl) trivial (by rintro _ _ ⟨⟩))

/-- Twins are compiled to functions that do the same. -/
theorem Closure.Twin.matches_of {closure closure' : Closure} (htwin : closure.Twin matching closure')
    (hcovers : likeness.Covers matching table table') {routine routine' : Routine}
    (hcompiled : closure.Compiled table routine) (hcompiled' : closure'.Compiled table' routine')
    (hline : routine.unit.lastLine? = routine'.unit.lastLine?) (hsize : routine.unit.code.size < 4294967296) :
    routine.Matches likeness table table' routine' := by
  obtain ⟨slots, last, body, body', halike, hunit, hunit'⟩ :=
    htwin.exists_alike hcovers hcompiled hcompiled' hline
  refine ⟨?_, ?_, ?_, ?_⟩
  · rw [hcompiled.name, hcompiled'.name, htwin.name]
  · rw [hunit, hunit']
    rfl
  · rw [hunit, hunit']
    rfl
  · rw [hunit] at hsize ⊢
    rw [hunit']
    have hlines := (halike.concat_ret last).lines_assemble (closure.parameters.length + 1)
      (closure.parameters.length + 1) slots.size slots.size
    have hcode := Fragment.hasAt_assemble (body ++ [.plain .ret last]) (closure.parameters.length + 1) slots.size
    have hcode' := Fragment.hasAt_assemble (body' ++ [.plain .ret last]) (closure.parameters.length + 1) slots.size
    refine halike.matches_of hlines hsize hcode.append.1 hcode'.append.1 ?_
    -- nothing comes after the return at the end
    have hend := hcode'.append.2
    rw [← halike.size_eq] at hend
    exact hcode.append.2.matches_cons hend hlines rfl rfl rfl (.plain trivial) (by rintro _ ⟨⟩)

end Code

end ScriptMachine
