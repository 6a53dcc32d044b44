import ScriptMachine.Proofs.TreeReading

/-!
# Writing and reading trees

A script is read back from its text exactly if the text is not too deep, and a script that was read from any text is
read back from its own text (`Script.reads_what_it_writes`). The second part holds because reading never makes a tree
deeper: what is written for a part lies at most as deep as what it was read from (`Shallow`).
-/

set_option autoImplicit false
set_option relaxedAutoImplicit false

namespace ScriptMachine

open Json

/-! ### Sound texts -/

namespace Json

theorem itemsIntegral_of_forall {items : List Json} (hitems : ∀ item ∈ items, item.isIntegral = true) :
    itemsIntegral items = true := by
  induction items with
  | nil => rfl
  | cons item rest ih =>
    obtain ⟨hitem, hrest⟩ := List.forall_mem_cons.mp hitems
    rw [itemsIntegral, hitem, ih hrest]
    rfl

theorem itemsSound_of_forall {items : List Json} (hitems : ∀ item ∈ items, item.isSound = true) :
    itemsSound items = true := by
  induction items with
  | nil => rfl
  | cons item rest ih =>
    obtain ⟨hitem, hrest⟩ := List.forall_mem_cons.mp hitems
    rw [itemsSound, hitem, ih hrest]
    rfl

theorem isIntegral_ofMembers {members : List (String × Json)}
    (hmembers : ∀ member ∈ members, member.2.isIntegral = true) : (ofMembers members).isIntegral = true := by
  rw [ofMembers, isIntegral]
  induction members with
  | nil => rfl
  | cons member rest ih =>
    obtain ⟨hmember, hrest⟩ := List.forall_mem_cons.mp hmembers
    rw [List.map_cons, membersIntegral, hmember, ih hrest]
    rfl

theorem isSound_ofMembers {members : List (String × Json)}
    (hmembers : ∀ member ∈ members, member.2.isSound = true) : (ofMembers members).isSound = true := by
  rw [ofMembers, isSound]
  induction members with
  | nil => rfl
  | cons member rest ih =>
    obtain ⟨hmember, hrest⟩ := List.forall_mem_cons.mp hmembers
    rw [List.map_cons, membersSound, hmember, ih hrest]
    rfl

/-- An approximation that is no multiple of ten never lies beyond the doubles. -/
theorem Approximation.not_overflows {approximation : Approximation} (hexponent : approximation.exponent ≤ 0) :
    approximation.overflows = false := by
  unfold overflows
  rw [if_pos hexponent, ite_self]

/-- An integer that a 64-bit word holds is within the range of the doubles. -/
theorem isSound_ofInt {value : Int} (hvalue : value.natAbs < UInt64.size) : (ofInt value).isSound = true := by
  show (Number.ofInt value).isFinite = true
  unfold Number.ofInt Number.isFinite Number.approximation
  dsimp only
  rw [Approximation.ofNat, dif_pos hvalue, Approximation.not_overflows (Int.le_refl 0)]
  rfl

end Json

/-- The numbers of a written node are integers. -/
theorem Node.toJson_isIntegral (node : Node) : node.toJson.isIntegral = true :=
  @Node.closed_toJson (fun json ↦ json.isIntegral = true) rfl (fun _ ↦ rfl) (fun _ ↦ rfl) (fun _ _ ↦ rfl)
    (fun _ hitems ↦ itemsIntegral_of_forall hitems) (fun _ hmembers ↦ isIntegral_ofMembers hmembers) node

/-- A written node is sound. -/
theorem Node.toJson_isSound (node : Node) : node.toJson.isSound = true :=
  @Node.closed_toJson (fun json ↦ json.isSound = true) rfl (fun _ ↦ rfl) (fun _ ↦ rfl)
    (fun _ hvalue ↦ isSound_ofInt hvalue) (fun _ hitems ↦ itemsSound_of_forall hitems)
    (fun _ hmembers ↦ isSound_ofMembers hmembers) node

namespace Script

/-- The text of a script says the script. -/
theorem parse?_toText (script : Script) : parse? script.toText = some script.toJson := by
  have hnodes : ∀ json ∈ nodesJson script.body.nodes, json.isIntegral = true := by
    rw [nodesJson_eq]
    exact List.forall_mem_map.mpr fun node _ ↦ node.toJson_isIntegral
  refine parse?_render (isIntegral_ofMembers (List.forall_mem_singleton.mpr ?_))
  exact isIntegral_ofMembers (List.forall_mem_cons.mpr ⟨itemsIntegral_of_forall hnodes,
    List.forall_mem_singleton.mpr rfl⟩)

/-- A script lies three levels above its nodes. -/
theorem depth_toJson (script : Script) :
    script.toJson.depth = itemsDepth (nodesJson script.body.nodes) + outerDepth := by
  rw [toJson, depth_ofMembers, List.map_cons, List.map_nil, itemsDepth, depth_blockJson, itemsDepth, Nat.max_zero]
  rfl

end Script

/-- A written node is read back as an outermost one if it is not too deep there. -/
theorem Node.outerNode?_toJson (node : Node) :
    outerNode? node.toJson = if node.toJson.depth + outerDepth ≤ depthLimit then some node else none := by
  unfold outerNode?
  by_cases hdepth : node.toJson.depth + outerDepth ≤ depthLimit
  · rw [if_pos ⟨node.toJson_isSound, hdepth⟩, if_pos hdepth]
    refine nodeOf?_toJson (fun kind ↦ kind.ofName?_name) node fun part hless ↦ nestedNode?_toJson ?_
    omega
  · rw [if_neg fun hboth ↦ hdepth hboth.2, if_neg hdepth]

/-- Written nodes are read back as outermost ones if they are not too deep there. -/
theorem itemsOf?_outerNodes (nodes : List Node) :
    itemsOf? outerNode? (.array (nodesJson nodes)) =
      if itemsDepth (nodesJson nodes) + outerDepth ≤ depthLimit then some nodes else none := by
  unfold itemsOf?
  dsimp only
  induction nodes with
  | nil => rfl
  | cons node rest ih =>
    rw [nodesJson, List.mapM_cons, ih, node.outerNode?_toJson, itemsDepth]
    have hboth : max node.toJson.depth (itemsDepth (nodesJson rest)) + outerDepth ≤ depthLimit ↔
        node.toJson.depth + outerDepth ≤ depthLimit ∧ itemsDepth (nodesJson rest) + outerDepth ≤ depthLimit := by
      omega
    by_cases hnode : node.toJson.depth + outerDepth ≤ depthLimit
    · by_cases hrest : itemsDepth (nodesJson rest) + outerDepth ≤ depthLimit
      · rw [if_pos hnode, if_pos hrest, if_pos (hboth.mpr ⟨hnode, hrest⟩)]
        rfl
      · rw [if_pos hnode, if_neg hrest, if_neg fun hall ↦ hrest (hboth.mp hall).2]
        rfl
    · rw [if_neg hnode, if_neg fun hall ↦ hnode (hboth.mp hall).1]
      rfl

/-- A written script is read back if it is not too deep. -/
theorem Script.ofJson?_toJson (script : Script) :
    ofJson? script.toJson = if script.toJson.depth ≤ depthLimit then some script else none := by
  have hnodes := itemsOf?_outerNodes script.body.nodes
  rw [← depth_toJson] at hnodes
  unfold ofJson?
  by_cases hdepth : script.toJson.depth ≤ depthLimit
  · rw [if_pos hdepth] at hnodes ⊢
    simp [toJson, blockJson, ofMembers, recordOf?, required?, partOf?, namesSound, blockOf?, recordLine?, optional?,
      lineOf?_lineJson, hnodes]
  · rw [if_neg hdepth] at hnodes ⊢
    simp [toJson, blockJson, ofMembers, recordOf?, required?, partOf?, namesSound, blockOf?, hnodes]

/-! ### Reading makes nothing deeper -/

/-- What is written for a part lies at most as deep as what the part was read from. -/
def Shallow {α : Type} (read : Json → Option α) (write : α → Json) : Prop :=
  ∀ (json : Json) (value : α), read json = some value → (write value).depth ≤ json.depth

namespace Shallow

variable {α : Type} {read : Json → Option α} {write : α → Json}

/-- A part that is written without arrays and objects. -/
theorem of_flat (hflat : ∀ value : α, (write value).depth = 0) : Shallow read write :=
  fun json value _ ↦ (hflat value).le.trans (Nat.zero_le json.depth)

theorem literalOf? : Shallow literalOf? Literal.toJson := by
  intro json literal hread
  have hliteral : literal.toJson.depth ≤ 1 := by
    cases literal <;> first | exact Nat.le_refl 1 | exact Nat.zero_le 1
  unfold ScriptMachine.literalOf? at hread
  split at hread
  case h_1 =>
    obtain rfl := Option.some.inj hread
    exact Nat.zero_le _
  case h_6 => cases hread
  all_goals exact Nat.le_trans hliteral (Nat.le_add_left 1 _)

/-- Items that were read lie no deeper than the array. -/
theorem items (hread : Shallow read write) :
    Shallow (itemsOf? read) (fun values ↦ .array (values.map write)) := by
  intro json values hvalues
  unfold itemsOf? at hvalues
  split at hvalues
  case h_2 => cases hvalues
  case h_1 items =>
    rw [depth, depth]
    refine Nat.succ_le_succ ?_
    induction items generalizing values with
    | nil =>
      obtain rfl := Option.some.inj hvalues
      exact Nat.le_refl _
    | cons item rest ih =>
      rw [List.mapM_cons] at hvalues
      obtain ⟨value, hvalue, hmore⟩ := Option.bind_eq_some_iff.mp hvalues
      obtain ⟨others, hothers, hsame⟩ := Option.bind_eq_some_iff.mp hmore
      obtain rfl := Option.some.inj hsame
      rw [List.map_cons, itemsDepth, itemsDepth]
      have hfirst := hread item value hvalue
      have hrest := ih others hothers
      omega

/-- A part of a record lies no deeper than the members. -/
theorem required {members : List (Member Json)} {name : String} {value : α} (hread : Shallow read write)
    (hrequired : required? members name read = some value) : (write value).depth ≤ membersDepth members := by
  unfold required? partOf? at hrequired
  split at hrequired
  case h_2 => cases hrequired
  case h_1 json hpart =>
    split at hpart
    case h_2 member hfilter =>
      obtain rfl := Option.some.inj (Option.some.inj hpart)
      have hmember : member ∈ members :=
        List.mem_of_mem_filter (hfilter ▸ List.mem_singleton_self member)
      rw [membersDepth_eq]
      exact Nat.le_trans (hread _ _ hrequired) (depth_le_itemsDepth (List.mem_map_of_mem hmember))
    all_goals cases hpart

/-- The members of a record lie less deep than the record. -/
theorem record {parts : List String} {lastOptional : Bool} {json : Json} {members : List (Member Json)}
    (hrecord : recordOf? parts lastOptional json = some members) : membersDepth members < json.depth := by
  unfold recordOf? at hrecord
  split at hrecord
  case h_1 own =>
    obtain rfl := Option.some.inj hrecord
    exact Nat.lt_succ_self _
  case h_2 items =>
    split_ifs at hrecord
    obtain rfl := Option.some.inj hrecord
    rw [membersDepth_eq, depth]
    refine Nat.lt_succ_of_le (itemsDepth_le fun item hitem ↦ ?_)
    obtain ⟨member, hmember, rfl⟩ := List.mem_map.mp hitem
    obtain ⟨pair, hpair, rfl⟩ := List.mem_map.mp hmember
    exact depth_le_itemsDepth (List.of_mem_zip hpair).2
  case h_3 => cases hrecord

section Nodes

variable {readNode : Json → Option Node}

/-- The nodes of a list. -/
theorem nodes (hread : Shallow readNode Node.toJson) :
    Shallow (itemsOf? readNode) (fun nodes ↦ .array (nodesJson nodes)) := by
  intro json nodes hnodes
  dsimp only
  rw [nodesJson_eq]
  exact hread.items json nodes hnodes

/-- A block lies no deeper than what it was read from. -/
theorem block (hread : Shallow readNode Node.toJson) :
    Shallow (blockOf? readNode) (fun body ↦ blockJson (nodesJson body.nodes) body.line) := by
  intro json body hblock
  simp only [blockOf?, Option.bind_eq_bind, Option.bind_eq_some_iff, Option.pure_def, Option.some.injEq] at hblock
  obtain ⟨members, hrecord, nodes, hnodes, line, -, rfl⟩ := hblock
  have hless := record hrecord
  have hinside := required hread.nodes hnodes
  rw [depth] at hinside
  rw [depth_blockJson]
  dsimp only
  omega

/-- A field of an object literal lies no deeper than what it was read from. -/
theorem field (hread : Shallow readNode Node.toJson) : Shallow (fieldOf? readNode) Field.toJson := by
  intro json field hfield
  simp only [fieldOf?, Option.bind_eq_bind, Option.bind_eq_some_iff, Option.pure_def, Option.some.injEq] at hfield
  obtain ⟨members, hrecord, name, -, value, hvalue, rfl⟩ := hfield
  have hless := record hrecord
  have hinside := required hread hvalue
  rw [depth_field]
  dsimp only
  omega

/-- A node of a known form lies at most one level above its members. -/
theorem parts (hread : Shallow readNode Node.toJson) {members : List (Member Json)} {kind : NodeKind} {node : Node}
    (hparts : partsOf? readNode members kind = some node) : node.toJson.depth ≤ membersDepth members + 1 := by
  have hcons : ∀ {json : Json} {rest : List Json}, json.depth ≤ membersDepth members →
      (∀ other ∈ rest, other.depth ≤ membersDepth members) →
        ∀ other ∈ json :: rest, other.depth ≤ membersDepth members :=
    fun hjson hrest ↦ List.forall_mem_cons.mpr ⟨hjson, hrest⟩
  have hnil : ∀ other ∈ ([] : List Json), other.depth ≤ membersDepth members := List.forall_mem_nil _
  have hflat : ∀ {json : Json}, json.depth = 0 → json.depth ≤ membersDepth members :=
    fun hzero ↦ hzero.le.trans (Nat.zero_le _)
  -- a node lies one level above the deepest of its parts
  have hnode : ∀ {kind : NodeKind} {parts : List Json} {line : UInt32}, parts.length + 1 = kind.parts.length →
      (∀ part ∈ parts, part.depth ≤ membersDepth members) →
        (nodeJson kind parts line).depth ≤ membersDepth members + 1 := by
    intro kind parts line hlength hall
    rw [depth_nodeJson hlength]
    exact Nat.succ_le_succ (itemsDepth_le hall)
  cases kind <;>
    simp only [partsOf?, Option.bind_eq_bind, Option.bind_eq_some_iff, Option.pure_def, Option.some.injEq] at hparts
  case block =>
    obtain ⟨nodes, hnodes, line, -, rfl⟩ := hparts
    have hinside := required hread.nodes hnodes
    exact hnode rfl (hcons hinside hnil)
  case literal =>
    obtain ⟨value, hvalue, line, -, rfl⟩ := hparts
    exact hnode rfl (hcons (required Shallow.literalOf? hvalue) hnil)
  case call =>
    obtain ⟨callee, hcallee, arguments, harguments, line, -, rfl⟩ := hparts
    have hinside := required hread.nodes harguments
    exact hnode rfl (hcons (required hread hcallee) (hcons hinside hnil))
  case access =>
    obtain ⟨name, -, line, -, rfl⟩ := hparts
    exact hnode rfl (hcons (hflat rfl) hnil)
  case assignment =>
    obtain ⟨name, -, value, hvalue, declares, -, line, -, rfl⟩ := hparts
    exact hnode rfl (hcons (hflat rfl) (hcons (required hread hvalue) (hcons (hflat rfl) hnil)))
  case function =>
    obtain ⟨name, -, parameters, hparameters, body, hbody, line, -, rfl⟩ := hparts
    have htexts : Shallow textOf? ofString := of_flat fun _ ↦ rfl
    have hinside := required htexts.items hparameters
    have hblock := required hread.block hbody
    have hname : (functionNameJson name).depth = 0 := by cases name <;> rfl
    exact hnode rfl (hcons (hflat hname) (hcons hinside (hcons hblock hnil)))
  case ret =>
    obtain ⟨value, hvalue, line, -, rfl⟩ := hparts
    exact hnode rfl (hcons (required hread hvalue) hnil)
  case conditional =>
    obtain ⟨condition, hcondition, thenBlock, hthen, elseBlock, helse, line, -, rfl⟩ := hparts
    have hfirst := required hread.block hthen
    have hsecond := required hread.block helse
    exact hnode rfl (hcons (required hread hcondition) (hcons hfirst (hcons hsecond hnil)))
  case object =>
    obtain ⟨fields, hfields, line, -, rfl⟩ := hparts
    have hinside := required hread.field.items hfields
    rw [← fieldsJson_eq] at hinside
    exact hnode rfl (hcons hinside hnil)
  case fieldAccess =>
    obtain ⟨receiver, hreceiver, name, -, line, -, rfl⟩ := hparts
    exact hnode rfl (hcons (required hread hreceiver) (hcons (hflat rfl) hnil))
  case fieldAssignment =>
    obtain ⟨receiver, hreceiver, name, -, value, hvalue, line, -, rfl⟩ := hparts
    exact hnode rfl (hcons (required hread hreceiver) (hcons (hflat rfl) (hcons (required hread hvalue) hnil)))
  case methodCall =>
    obtain ⟨receiver, hreceiver, name, -, arguments, harguments, line, -, rfl⟩ := hparts
    have hinside := required hread.nodes harguments
    exact hnode rfl (hcons (required hread hreceiver) (hcons (hflat rfl) (hcons hinside hnil)))

/-- A node lies no deeper than what it was read from. -/
theorem node (kindOf : Json → Option NodeKind) (hread : Shallow readNode Node.toJson) :
    Shallow (nodeOf? kindOf readNode) Node.toJson := by
  intro json node hnode
  unfold nodeOf? at hnode
  split at hnode
  case h_1 members =>
    obtain ⟨kind, -, hparts⟩ := Option.bind_eq_some_iff.mp hnode
    exact hread.parts hparts
  case h_2 first rest =>
    obtain ⟨kind, -, hmore⟩ := Option.bind_eq_some_iff.mp hnode
    obtain ⟨members, hrecord, hparts⟩ := Option.bind_eq_some_iff.mp hmore
    have hless := record hrecord
    have hinside := hread.parts hparts
    rw [depth] at hless ⊢
    rw [itemsDepth]
    omega
  case h_3 => cases hnode

/-- A nested node lies no deeper than what it was read from. -/
theorem nested (levels : Nat) : Shallow (nestedNode? levels) Node.toJson := by
  induction levels with
  | zero => rintro json node ⟨⟩
  | succ levels ih => exact ih.node anyKind?

end Nodes

/-- An outermost node, with the levels around it, lies within the limit. -/
theorem outer {json : Json} {node : Node} (hnode : outerNode? json = some node) :
    node.toJson.depth + outerDepth ≤ depthLimit := by
  unfold outerNode? at hnode
  split_ifs at hnode with hboth
  have hdepth := (nested depthLimit).node namedKind? json node hnode
  omega

end Shallow

section Origins

variable {α : Type} {read : Json → Option α}

/-- A part that is there was read from something. -/
theorem exists_of_required? {members : List (Member Json)} {name : String} {value : α}
    (hrequired : required? members name read = some value) : ∃ json : Json, read json = some value := by
  unfold required? at hrequired
  split at hrequired
  case h_1 json _ => exact ⟨json, hrequired⟩
  case h_2 => cases hrequired

/-- Every item that was read was read from something. -/
theorem exists_of_itemsOf? {json : Json} {values : List α} (hitems : itemsOf? read json = some values) :
    ∀ value ∈ values, ∃ item : Json, read item = some value := by
  unfold itemsOf? at hitems
  split at hitems
  case h_2 => cases hitems
  case h_1 items =>
    induction items generalizing values with
    | nil =>
      obtain rfl := Option.some.inj hitems
      exact List.forall_mem_nil _
    | cons item rest ih =>
      rw [List.mapM_cons] at hitems
      obtain ⟨value, hvalue, hmore⟩ := Option.bind_eq_some_iff.mp hitems
      obtain ⟨others, hothers, hsame⟩ := Option.bind_eq_some_iff.mp hmore
      obtain rfl := Option.some.inj hsame
      exact List.forall_mem_cons.mpr ⟨⟨item, hvalue⟩, ih hothers⟩

end Origins

namespace Script

/-- A script that was read lies within the limit. -/
theorem depth_le_of_ofJson? {json : Json} {script : Script} (hread : ofJson? json = some script) :
    script.toJson.depth ≤ depthLimit := by
  simp only [ofJson?, Option.bind_eq_bind, Option.bind_eq_some_iff] at hread
  obtain ⟨members, -, body, hbody, hscript⟩ := hread
  split_ifs at hscript
  obtain rfl := Option.some.inj hscript
  obtain ⟨written, hwritten⟩ := exists_of_required? hbody
  split_ifs at hwritten
  simp only [blockOf?, Option.bind_eq_bind, Option.bind_eq_some_iff, Option.pure_def, Option.some.injEq] at hwritten
  obtain ⟨parts, -, nodes, hnodes, line, -, rfl⟩ := hwritten
  obtain ⟨listed, hlisted⟩ := exists_of_required? hnodes
  -- every node lies within the limit
  have hinside : itemsDepth (nodesJson nodes) ≤ depthLimit - outerDepth := by
    rw [nodesJson_eq]
    refine itemsDepth_le (List.forall_mem_map.mpr fun node hnode ↦ ?_)
    obtain ⟨item, hitem⟩ := exists_of_itemsOf? hlisted node hnode
    exact Nat.le_sub_of_add_le (Shallow.outer hitem)
  rw [depth_toJson]
  exact Nat.add_le_of_le_sub (by decide) hinside

/-- Writing and reading scripts are inverse. The text of a script says the script; it is read as that script if arrays
and objects lie at most `depthLimit` deep within one another in it, and refused if they lie deeper. A script that was
read from any text is read back from its own. -/
theorem reads_what_it_writes :
    (∀ script : Script, parse? script.toText = some script.toJson ∧
        ofText? script.toText = if script.toJson.depth ≤ depthLimit then some script else none) ∧
      ∀ text : String, ((ofText? text).bind fun script ↦ ofText? script.toText) = ofText? text := by
  have hwritten : ∀ script : Script,
      ofText? script.toText = if script.toJson.depth ≤ depthLimit then some script else none := by
    intro script
    rw [ofText?, script.parse?_toText]
    exact script.ofJson?_toJson
  refine ⟨fun script ↦ ⟨script.parse?_toText, hwritten script⟩, fun text ↦ ?_⟩
  cases hread : ofText? text with
  | none => exact Option.bind_none _
  | some script =>
    obtain ⟨json, -, hjson⟩ := Option.bind_eq_some_iff.mp hread
    rw [Option.bind_some, hwritten script, if_pos (depth_le_of_ofJson? hjson)]

end Script

end ScriptMachine
