import Mathlib.Data.List.Basic
import ScriptMachine.Proofs.JsonReading
import ScriptMachine.Proofs.Sites
import ScriptMachine.Tree.Reader
import ScriptMachine.Tree.Writer

/-!
# Reading back written trees

A node that was written is read back by a reader that has room for its depth (`Node.nestedNode?_toJson`): what is
written for a part is read as that part, and lies less deep than the node. The strings of a written tree have a content
and its numbers are integers that doubles reach, so that the text is sound and says the tree (`Node.toJson_isSound`,
`Script.parse?_toText`).
-/

set_option autoImplicit false
set_option relaxedAutoImplicit false

namespace ScriptMachine

/-! ### Depths -/

namespace Json

variable {items : List Json} {bound : Nat}

theorem depth_le_itemsDepth {item : Json} (hitem : item ∈ items) : item.depth ≤ itemsDepth items := by
  induction items with
  | nil => cases hitem
  | cons first rest ih =>
    rw [itemsDepth]
    rcases List.mem_cons.mp hitem with rfl | hrest
    · exact Nat.le_max_left _ _
    · exact Nat.le_trans (ih hrest) (Nat.le_max_right _ _)

theorem itemsDepth_le (hitems : ∀ item ∈ items, item.depth ≤ bound) : itemsDepth items ≤ bound := by
  induction items with
  | nil => exact Nat.zero_le _
  | cons first rest ih =>
    obtain ⟨hfirst, hrest⟩ := List.forall_mem_cons.mp hitems
    exact Nat.max_le.mpr ⟨hfirst, ih hrest⟩

/-- The depth of some members is that of their values. -/
theorem membersDepth_eq (members : List (Member Json)) :
    membersDepth members = itemsDepth (members.map Member.value) := by
  induction members with
  | nil => rfl
  | cons member rest ih => rw [membersDepth, ih, List.map_cons, itemsDepth]

/-- An object lies one level above the values of its members. -/
theorem depth_ofMembers (members : List (String × Json)) :
    (ofMembers members).depth = itemsDepth (members.map Prod.snd) + 1 := by
  rw [ofMembers, depth, membersDepth_eq, List.map_map]
  rfl

/-- An integer is no array and no object. -/
@[simp] theorem depth_ofInt (value : Int) : (ofInt value).depth = 0 :=
  rfl

@[simp] theorem depth_ofString (content : String) : (ofString content).depth = 0 :=
  rfl

end Json

open Json

@[simp] theorem depth_lineJson (line : UInt32) : (lineJson line).depth = 0 :=
  rfl

/-- A block lies two levels above its nodes. -/
theorem depth_blockJson (nodes : List Json) (line : UInt32) :
    (blockJson nodes line).depth = itemsDepth nodes + 2 := by
  rw [blockJson, depth_ofMembers]
  simp only [List.map_cons, List.map_nil, itemsDepth, depth, depth_lineJson, Nat.max_zero]

/-- A node lies one level above its parts. -/
theorem depth_nodeJson {kind : NodeKind} {parts : List Json} (hparts : parts.length + 1 = kind.parts.length)
    (line : UInt32) : (nodeJson kind parts line).depth = itemsDepth parts + 1 := by
  have hsame : (kind.parts.zip (parts ++ [lineJson line])).map Prod.snd = parts ++ [lineJson line] :=
    List.map_snd_zip (by rw [List.length_append, List.length_singleton, hparts])
  have hline : itemsDepth (parts ++ [lineJson line]) = itemsDepth parts := by
    refine Nat.le_antisymm (itemsDepth_le fun item hitem ↦ ?_) (itemsDepth_le fun item hitem ↦
      depth_le_itemsDepth (List.mem_append_left _ hitem))
    rcases List.mem_append.mp hitem with hpart | hlast
    · exact depth_le_itemsDepth hpart
    · rw [List.mem_singleton.mp hlast]
      exact Nat.zero_le _
  rw [nodeJson, depth_ofMembers, List.map_cons, hsame, itemsDepth, hline, depth_ofString, Nat.zero_max]

theorem depth_lt_nodeJson {kind : NodeKind} {parts : List Json} {part : Json}
    (hparts : parts.length + 1 = kind.parts.length) (hpart : part ∈ parts) (line : UInt32) :
    part.depth < (nodeJson kind parts line).depth := by
  rw [depth_nodeJson hparts]
  exact Nat.lt_succ_of_le (depth_le_itemsDepth hpart)

/-- The nodes of a list are written one by one. -/
theorem nodesJson_eq (nodes : List Node) : nodesJson nodes = nodes.map Node.toJson := by
  induction nodes with
  | nil => rfl
  | cons node rest ih => rw [nodesJson, ih, List.map_cons]

/-- A field of an object literal. -/
def Field.toJson (field : Field Node) : Json :=
  .ofMembers [("name", .ofString field.name), ("value", field.value.toJson)]

/-- The fields of an object literal are written one by one. -/
theorem fieldsJson_eq (fields : List (Field Node)) : fieldsJson fields = fields.map Field.toJson := by
  induction fields with
  | nil => rfl
  | cons field rest ih => rw [fieldsJson, ih, List.map_cons, Field.toJson]

theorem depth_field (field : Field Node) : field.toJson.depth = field.value.toJson.depth + 1 := by
  rw [Field.toJson, depth_ofMembers]
  simp only [List.map_cons, List.map_nil, itemsDepth, depth_ofString, Nat.max_zero, Nat.zero_max]

/-! ### Plain parts -/

theorem lineOf?_lineJson (line : UInt32) : lineOf? (lineJson line) = some line := by
  unfold lineJson ofNat ofInt lineOf?
  dsimp only
  rw [Number.toInt?_ofInt]
  dsimp only
  have hline := line.toNat_lt
  rw [if_pos ⟨Int.natCast_nonneg _, by simp only [UInt32.size]; omega⟩, Int.toNat_natCast, UInt32.ofNat_toNat]

theorem integerOf?_ofInt (value : Int64) : integerOf? (.ofInt value.toInt) = some value := by
  unfold ofInt integerOf?
  dsimp only
  rw [Number.toInt?_ofInt]
  dsimp only
  rw [if_pos ⟨value.minValue_le_toInt, value.toInt_le⟩, Int64.ofInt_toInt]

theorem literalOf?_toJson (literal : Literal) : literalOf? literal.toJson = some literal := by
  cases literal with
  | integer value => simp [Literal.toJson, ofMembers, literalOf?, integerOf?_ofInt]
  | text content => rfl
  | boolean value => rfl
  | undefined => rfl

theorem optionalTextOf?_functionNameJson (name : Option String) :
    optionalTextOf? (functionNameJson name) = some name := by
  cases name <;> rfl

/-- Items that are read back one by one are read back. -/
theorem itemsOf?_map {α : Type} {read : Json → Option α} {write : α → Json} {values : List α}
    (hvalues : ∀ value ∈ values, read (write value) = some value) :
    itemsOf? read (.array (values.map write)) = some values := by
  unfold itemsOf?
  dsimp only
  induction values with
  | nil => rfl
  | cons value rest ih =>
    obtain ⟨hvalue, hrest⟩ := List.forall_mem_cons.mp hvalues
    rw [List.map_cons, List.mapM_cons, hvalue, ih hrest]
    rfl

theorem itemsOf?_texts (texts : List String) : itemsOf? textOf? (.array (texts.map ofString)) = some texts :=
  itemsOf?_map fun _ _ ↦ rfl

/-! ### Blocks and nodes -/

section Parts

variable {kindOf : Json → Option NodeKind} {read : Json → Option Node}

theorem itemsOf?_nodes {nodes : List Node} (hnodes : ∀ node ∈ nodes, read node.toJson = some node) :
    itemsOf? read (.array (nodesJson nodes)) = some nodes := by
  rw [nodesJson_eq]
  exact itemsOf?_map hnodes

theorem blockOf?_blockJson {nodes : List Node} (hnodes : ∀ node ∈ nodes, read node.toJson = some node)
    (line : UInt32) : blockOf? read (blockJson (nodesJson nodes) line) = some ⟨nodes, line⟩ := by
  simp [blockOf?, blockJson, ofMembers, recordOf?, required?, recordLine?, optional?, partOf?,
    itemsOf?_nodes hnodes, lineOf?_lineJson]

theorem itemsOf?_fields {fields : List (Field Node)}
    (hfields : ∀ field ∈ fields, read field.value.toJson = some field.value) :
    itemsOf? (fieldOf? read) (.array (fieldsJson fields)) = some fields := by
  rw [fieldsJson_eq]
  refine itemsOf?_map fun field hfield ↦ ?_
  simp [fieldOf?, Field.toJson, ofMembers, recordOf?, required?, partOf?, textOf?, ofString, hfields field hfield]

/-- The parts of a written node are found by their names, and its form by the name of the form. -/
theorem nodeOf?_nodeJson (hkind : ∀ kind : NodeKind, kindOf (.ofString kind.name) = some kind) (kind : NodeKind)
    (parts : List Json) (line : UInt32) :
    nodeOf? kindOf read (nodeJson kind parts line) =
      partsOf? read (⟨some "kind", .ofString kind.name⟩ ::
        (kind.parts.zip (parts ++ [lineJson line])).map fun part ↦ ⟨some part.1, part.2⟩) kind := by
  have hother : ∀ part ∈ (kind.parts.zip (parts ++ [lineJson line])).map
      (fun part ↦ (⟨some part.1, part.2⟩ : Member Json)), ¬ (part.name == some "kind") = true := by
    intro part hpart hname
    obtain ⟨pair, hpair, rfl⟩ := List.mem_map.mp hpart
    have hlisted : "kind" ∈ kind.parts := by
      rw [← Option.some.inj (beq_iff_eq.mp hname)]
      exact (List.of_mem_zip hpair).1
    cases kind <;> exact absurd hlisted (by decide)
  have hfound : required? (⟨some "kind", .ofString kind.name⟩ ::
      (kind.parts.zip (parts ++ [lineJson line])).map fun part ↦ ⟨some part.1, part.2⟩) "kind" kindOf =
        some kind := by
    unfold required? partOf?
    rw [List.filter_cons_of_pos rfl, List.filter_eq_nil_iff.mpr hother]
    exact hkind kind
  rw [nodeJson, ofMembers, List.map_cons]
  unfold nodeOf?
  dsimp only
  rw [hfound]
  rfl

theorem depth_le_nodesJson {nodes : List Node} {node : Node} (hnode : node ∈ nodes) :
    node.toJson.depth ≤ itemsDepth (nodesJson nodes) := by
  rw [nodesJson_eq]
  exact depth_le_itemsDepth (List.mem_map_of_mem hnode)

theorem depth_lt_fieldsJson {fields : List (Field Node)} {field : Field Node} (hfield : field ∈ fields) :
    field.value.toJson.depth < itemsDepth (fieldsJson fields) := by
  rw [fieldsJson_eq, Nat.lt_iff_add_one_le, ← depth_field]
  exact depth_le_itemsDepth (List.mem_map_of_mem hfield)

/-- A node is read back as soon as every node that lies less deep is. -/
theorem nodeOf?_toJson (hkind : ∀ kind : NodeKind, kindOf (.ofString kind.name) = some kind) (node : Node)
    (hread : ∀ part : Node, part.toJson.depth < node.toJson.depth → read part.toJson = some part) :
    nodeOf? kindOf read node.toJson = some node := by
  have hnodes : ∀ nodes : List Node, itemsDepth (nodesJson nodes) < node.toJson.depth →
      ∀ part ∈ nodes, read part.toJson = some part :=
    fun nodes hless part hpart ↦ hread part (Nat.lt_of_le_of_lt (depth_le_nodesJson hpart) hless)
  have harray : ∀ nodes : List Node, (Json.array (nodesJson nodes)).depth < node.toJson.depth →
      itemsOf? read (.array (nodesJson nodes)) = some nodes := by
    intro nodes hless
    rw [depth] at hless
    exact itemsOf?_nodes (hnodes nodes (Nat.lt_of_succ_lt hless))
  have hblock : ∀ body : Block Node, (blockJson (nodesJson body.nodes) body.line).depth < node.toJson.depth →
      blockOf? read (blockJson (nodesJson body.nodes) body.line) = some body := by
    intro body hless
    rw [depth_blockJson] at hless
    exact blockOf?_blockJson (hnodes body.nodes (by omega)) body.line
  have hfields : ∀ fields : List (Field Node), (Json.array (fieldsJson fields)).depth < node.toJson.depth →
      itemsOf? (fieldOf? read) (.array (fieldsJson fields)) = some fields := by
    intro fields hless
    rw [depth] at hless
    exact itemsOf?_fields fun field hfield ↦
      hread _ (Nat.lt_trans (depth_lt_fieldsJson hfield) (Nat.lt_of_succ_lt hless))
  -- the parts are found by their names, whatever the form of the node
  cases node <;> rw [Node.toJson, nodeOf?_nodeJson hkind] <;>
    simp only [partsOf?, required?, partOf?, ofString, NodeKind.parts, List.cons_append, List.nil_append,
      List.zip_cons_cons, List.zip_nil_right, List.map_cons, List.map_nil, Option.some_beq_some, String.reduceBEq,
      Bool.false_eq_true, not_false_eq_true, List.filter_cons_of_neg, BEq.rfl, List.filter_cons_of_pos,
      List.filter_nil, literalOf?_toJson, textOf?, flagOf?, optionalTextOf?_functionNameJson, recordLine?, optional?,
      lineOf?_lineJson, Option.pure_def, Option.bind_eq_bind, Option.bind_some]
  case block body =>
    rw [harray body.nodes (depth_lt_nodeJson rfl (.head _) _), Option.bind_some]
  case call callee arguments line =>
    rw [hread callee (depth_lt_nodeJson rfl (.head _) _), Option.bind_some,
      harray arguments (depth_lt_nodeJson rfl (.tail _ (.head _)) _), Option.bind_some]
  case assignment name value declares line =>
    rw [hread value (depth_lt_nodeJson rfl (.tail _ (.head _)) _), Option.bind_some]
  case function name parameters body line =>
    rw [itemsOf?_texts parameters, Option.bind_some,
      hblock body (depth_lt_nodeJson rfl (.tail _ (.tail _ (.head _))) _), Option.bind_some]
  case ret value line =>
    rw [hread value (depth_lt_nodeJson rfl (.head _) _), Option.bind_some]
  case conditional condition thenBlock elseBlock line =>
    rw [hread condition (depth_lt_nodeJson rfl (.head _) _), Option.bind_some,
      hblock thenBlock (depth_lt_nodeJson rfl (.tail _ (.head _)) _), Option.bind_some,
      hblock elseBlock (depth_lt_nodeJson rfl (.tail _ (.tail _ (.head _))) _), Option.bind_some]
  case object fields line =>
    rw [hfields fields (depth_lt_nodeJson rfl (.head _) _), Option.bind_some]
  case fieldAccess receiver name line =>
    rw [hread receiver (depth_lt_nodeJson rfl (.head _) _), Option.bind_some]
  case fieldAssignment receiver name value line =>
    rw [hread receiver (depth_lt_nodeJson rfl (.head _) _), Option.bind_some,
      hread value (depth_lt_nodeJson rfl (.tail _ (.tail _ (.head _))) _), Option.bind_some]
  case methodCall receiver name arguments line =>
    rw [hread receiver (depth_lt_nodeJson rfl (.head _) _), Option.bind_some,
      harray arguments (depth_lt_nodeJson rfl (.tail _ (.tail _ (.head _))) _), Option.bind_some]

end Parts

/-- A written node is read back with room for its depth. -/
theorem Node.nestedNode?_toJson {levels : Nat} {node : Node} (hdepth : node.toJson.depth ≤ levels) :
    nestedNode? levels node.toJson = some node := by
  induction levels generalizing node with
  | zero =>
    have hpositive : 0 < node.toJson.depth := by
      cases node <;> rw [Node.toJson, depth_nodeJson rfl] <;> exact Nat.succ_pos _
    exact absurd hdepth (Nat.not_le_of_lt hpositive)
  | succ levels ih =>
    refine nodeOf?_toJson (fun kind ↦ ?_) node fun part hless ↦ ih (Nat.le_of_lt_succ (Nat.lt_of_lt_of_le hless hdepth))
    exact kind.ofName?_name

/-! ### What written trees are made of -/

section Closed

variable {motive : Json → Prop} (null : motive .null) (boolean : ∀ value : Bool, motive (.boolean value))
  (string : ∀ content : String, motive (.ofString content))
  (integer : ∀ value : Int, value.natAbs < UInt64.size → motive (.ofInt value))
  (array : ∀ items : List Json, (∀ item ∈ items, motive item) → motive (.array items))
  (object : ∀ members : List (String × Json), (∀ member ∈ members, motive member.2) → motive (.ofMembers members))

include integer in
/-- A line is a small integer. -/
theorem closed_lineJson (line : UInt32) : motive (lineJson line) := by
  have hline := line.toNat_lt
  exact integer line.toNat (by rw [Int.natAbs_natCast, UInt64.size]; omega)

include integer array object in
/-- A property of integers, arrays and objects is one of blocks. -/
theorem closed_blockJson {nodes : List Json} (hnodes : ∀ node ∈ nodes, motive node) (line : UInt32) :
    motive (blockJson nodes line) :=
  object _ (List.forall_mem_cons.mpr ⟨array _ hnodes,
    List.forall_mem_cons.mpr ⟨closed_lineJson integer line, List.forall_mem_nil _⟩⟩)

include string integer object in
/-- A property of strings, integers and objects is one of nodes with parts. -/
theorem closed_nodeJson {parts : List Json} (hparts : ∀ part ∈ parts, motive part) (kind : NodeKind)
    (line : UInt32) : motive (nodeJson kind parts line) := by
  refine object _ (List.forall_mem_cons.mpr ⟨string _, fun member hmember ↦ ?_⟩)
  rcases List.mem_append.mp (List.of_mem_zip hmember).2 with hpart | hline
  · exact hparts _ hpart
  · rw [List.mem_singleton.mp hline]
    exact closed_lineJson integer line

include null boolean string integer array object in
/-- Written nodes are made of null, truth values, strings, small integers, arrays and objects. -/
theorem Node.closed_toJson (node : Node) : motive node.toJson := by
  have hnodes : ∀ {nodes : List Node}, (∀ node ∈ nodes, motive node.toJson) →
      ∀ json ∈ nodesJson nodes, motive json := by
    intro nodes hall
    rw [nodesJson_eq]
    exact List.forall_mem_map.mpr hall
  have hnode := @closed_nodeJson motive string integer object
  have hblock := @closed_blockJson motive integer array object
  induction node using Node.induction with
  | block body ih => exact hnode (List.forall_mem_singleton.mpr (array _ (hnodes ih))) _ _
  | literal value line =>
    refine hnode (List.forall_mem_singleton.mpr ?_) _ _
    cases value with
    | integer value =>
      have hlow := value.minValue_le_toInt
      have hhigh := value.toInt_le
      exact object _ (List.forall_mem_singleton.mpr (integer _ (by
        simp only [Int64.toInt_minValue, Int64.toInt_maxValue] at hlow hhigh
        simp only [UInt64.size]
        omega)))
    | text content => exact object _ (List.forall_mem_singleton.mpr (string content))
    | boolean value => exact object _ (List.forall_mem_singleton.mpr (boolean value))
    | undefined => exact string _
  | call callee arguments line ihCallee ihArguments =>
    exact hnode (List.forall_mem_cons.mpr ⟨ihCallee, List.forall_mem_singleton.mpr (array _ (hnodes ihArguments))⟩) _ _
  | access name line => exact hnode (List.forall_mem_singleton.mpr (string name)) _ _
  | assignment name value declares line ih =>
    exact hnode (List.forall_mem_cons.mpr ⟨string name, List.forall_mem_cons.mpr ⟨ih,
      List.forall_mem_singleton.mpr (boolean declares)⟩⟩) _ _
  | function name parameters body line ih =>
    refine hnode (List.forall_mem_cons.mpr ⟨?_, List.forall_mem_cons.mpr ⟨array _ ?_,
      List.forall_mem_singleton.mpr (hblock (hnodes ih) _)⟩⟩) _ _
    · cases name with
      | none => exact null
      | some name => exact string name
    · exact List.forall_mem_map.mpr fun name _ ↦ string name
  | ret value line ih => exact hnode (List.forall_mem_singleton.mpr ih) _ _
  | conditional condition thenBlock elseBlock line ihCondition ihThen ihElse =>
    exact hnode (List.forall_mem_cons.mpr ⟨ihCondition, List.forall_mem_cons.mpr ⟨hblock (hnodes ihThen) _,
      List.forall_mem_singleton.mpr (hblock (hnodes ihElse) _)⟩⟩) _ _
  | object fields line ih =>
    refine hnode (List.forall_mem_singleton.mpr (array _ ?_)) _ _
    rw [fieldsJson_eq]
    exact List.forall_mem_map.mpr fun field hfield ↦ object _ (List.forall_mem_cons.mpr ⟨string _,
      List.forall_mem_singleton.mpr (ih field hfield)⟩)
  | fieldAccess receiver name line ih =>
    exact hnode (List.forall_mem_cons.mpr ⟨ih, List.forall_mem_singleton.mpr (string name)⟩) _ _
  | fieldAssignment receiver name value line ihReceiver ihValue =>
    exact hnode (List.forall_mem_cons.mpr ⟨ihReceiver, List.forall_mem_cons.mpr ⟨string name,
      List.forall_mem_singleton.mpr ihValue⟩⟩) _ _
  | methodCall receiver name arguments line ihReceiver ihArguments =>
    exact hnode (List.forall_mem_cons.mpr ⟨ihReceiver, List.forall_mem_cons.mpr ⟨string name,
      List.forall_mem_singleton.mpr (array _ (hnodes ihArguments))⟩⟩) _ _

end Closed

end ScriptMachine
