import ScriptMachine.Lowering

/-!
# Literal sites

Every function literal and every object literal of a program is a site, and a compilation gives each site
one identity. The identities count up in the order in which the sites are finished: those inside a literal
come before the literal itself. `Node.sites` counts the sites of a node, `Node.closures` lists its function
literals with their identities, and `Script.closures` adds the body of the script, which comes last.

`Node.induction` is induction on trees, with one hypothesis for all nodes in a list.
-/

set_option autoImplicit false
set_option relaxedAutoImplicit false

namespace ScriptMachine

/-- The value of a literal that is no site. -/
def Literal.toValue : Literal → Value
  | .integer value => .integer value
  | .text content => .text content
  | .boolean value => .boolean value
  | .undefined => .undefined

/-! ### Counting -/

mutual

/-- The number of function and object literals in a node, also inside nested functions. -/
def Node.sites : Node → Nat
  | .block body => sitesOf body.nodes
  | .literal _ _ => 0
  | .call callee arguments _ => callee.sites + sitesOf arguments
  | .access _ _ => 0
  | .assignment _ value _ _ => value.sites
  | .function _ _ body _ => sitesOf body.nodes + 1
  | .ret value _ => value.sites
  | .conditional condition thenBlock elseBlock _ =>
    condition.sites + sitesOf thenBlock.nodes + sitesOf elseBlock.nodes
  | .object fields _ => fieldSites fields + 1
  | .fieldAccess receiver _ _ => receiver.sites
  | .fieldAssignment receiver _ value _ => receiver.sites + value.sites
  | .methodCall receiver _ arguments _ => receiver.sites + sitesOf arguments

/-- The number of literals in several nodes. -/
def sitesOf : List Node → Nat
  | [] => 0
  | node :: rest => node.sites + sitesOf rest

/-- The number of literals in the initial values of fields. -/
def fieldSites : List (Field Node) → Nat
  | [] => 0
  | field :: rest => field.value.sites + fieldSites rest

end

/-! ### Function literals -/

/-- A function of a program: its identity, its name, and what it does. The sites of its body have the
identities from `firstSite` on. -/
structure Closure where
  identity : Nat
  name : String
  parameters : List String
  body : Block Node
  firstSite : Nat

/-- The function of a body whose sites have the identities from the first one on. -/
def Closure.ofBody (first : Nat) (name : String) (parameters : List String) (body : Block Node) : Closure :=
  ⟨first + sitesOf body.nodes, name, parameters, body, first⟩

mutual

/-- The function literals of a node whose sites have the identities from the first one on. -/
def Node.closures (first : Nat) : Node → List Closure
  | .block body => closuresOf first body.nodes
  | .literal _ _ => []
  | .call callee arguments _ =>
    callee.closures first ++ closuresOf (first + callee.sites) arguments
  | .access _ _ => []
  | .assignment _ value _ _ => value.closures first
  | .function name parameters body _ =>
    closuresOf first body.nodes ++
      [Closure.ofBody first (name.getD Lowering.anonymous) parameters body]
  | .ret value _ => value.closures first
  | .conditional condition thenBlock elseBlock _ =>
    condition.closures first ++ closuresOf (first + condition.sites) thenBlock.nodes ++
      closuresOf (first + condition.sites + sitesOf thenBlock.nodes) elseBlock.nodes
  | .object fields _ => fieldClosures first fields
  | .fieldAccess receiver _ _ => receiver.closures first
  | .fieldAssignment receiver _ value _ =>
    receiver.closures first ++ value.closures (first + receiver.sites)
  | .methodCall receiver _ arguments _ =>
    receiver.closures first ++ closuresOf (first + receiver.sites) arguments

/-- The function literals of several nodes. -/
def closuresOf (first : Nat) : List Node → List Closure
  | [] => []
  | node :: rest => node.closures first ++ closuresOf (first + node.sites) rest

/-- The function literals in the initial values of fields. -/
def fieldClosures (first : Nat) : List (Field Node) → List Closure
  | [] => []
  | field :: rest => field.value.closures first ++ fieldClosures (first + field.value.sites) rest

end

/-- The number of sites of a script, its body included. -/
def Script.sites (script : Script) : Nat :=
  sitesOf script.body.nodes + 1

/-- The functions of a script, the one of its body last. -/
def Script.closures (first : Nat) (script : Script) : List Closure :=
  closuresOf first script.body.nodes ++ [Closure.ofBody first "main" [] script.body]

/-! ### Induction on trees -/

/-- A property that a node has as soon as all its parts have it holds for all nodes. -/
theorem Node.induction {motive : Node → Prop}
    (block : ∀ body : Block Node, (∀ node ∈ body.nodes, motive node) → motive (.block body))
    (literal : ∀ (value : Literal) (line : UInt32), motive (.literal value line))
    (call : ∀ (callee : Node) (arguments : List Node) (line : UInt32), motive callee →
      (∀ node ∈ arguments, motive node) → motive (.call callee arguments line))
    (access : ∀ (name : String) (line : UInt32), motive (.access name line))
    (assignment : ∀ (name : String) (value : Node) (declares : Bool) (line : UInt32), motive value →
      motive (.assignment name value declares line))
    (function : ∀ (name : Option String) (parameters : List String) (body : Block Node) (line : UInt32),
      (∀ node ∈ body.nodes, motive node) → motive (.function name parameters body line))
    (ret : ∀ (value : Node) (line : UInt32), motive value → motive (.ret value line))
    (conditional : ∀ (condition : Node) (thenBlock elseBlock : Block Node) (line : UInt32),
      motive condition → (∀ node ∈ thenBlock.nodes, motive node) →
      (∀ node ∈ elseBlock.nodes, motive node) →
      motive (.conditional condition thenBlock elseBlock line))
    (object : ∀ (fields : List (Field Node)) (line : UInt32),
      (∀ field ∈ fields, motive field.value) → motive (.object fields line))
    (fieldAccess : ∀ (receiver : Node) (name : String) (line : UInt32), motive receiver →
      motive (.fieldAccess receiver name line))
    (fieldAssignment : ∀ (receiver : Node) (name : String) (value : Node) (line : UInt32),
      motive receiver → motive value → motive (.fieldAssignment receiver name value line))
    (methodCall : ∀ (receiver : Node) (name : String) (arguments : List Node) (line : UInt32),
      motive receiver → (∀ node ∈ arguments, motive node) →
      motive (.methodCall receiver name arguments line))
    (node : Node) : motive node := by
  have ih : ∀ part : Node, sizeOf part < sizeOf node → motive part := fun part _ ↦
    Node.induction block literal call access assignment function ret conditional object fieldAccess
      fieldAssignment methodCall part
  have hlist : ∀ {nodes : List Node} {part : Node}, part ∈ nodes → sizeOf part < sizeOf nodes :=
    fun hpart ↦ List.sizeOf_lt_of_mem hpart
  have hblock : ∀ {body : Block Node} {part : Node}, part ∈ body.nodes → sizeOf part < sizeOf body := by
    intro body part hpart
    have hsmaller := hlist hpart
    obtain ⟨nodes, line⟩ := body
    simp only [Block.mk.sizeOf_spec] at hsmaller ⊢
    omega
  have hfield : ∀ {fields : List (Field Node)} {field : Field Node}, field ∈ fields →
      sizeOf field.value < sizeOf fields := by
    intro fields field hmem
    have hsmaller := List.sizeOf_lt_of_mem hmem
    obtain ⟨name, value⟩ := field
    simp only [Field.mk.sizeOf_spec] at hsmaller ⊢
    omega
  cases node
  case block body =>
    refine block body fun part hpart ↦ ih part ?_
    have hsmaller := hblock hpart
    simp only [Node.block.sizeOf_spec]
    omega
  case literal value line => exact literal value line
  case call callee arguments line =>
    refine call callee arguments line (ih callee ?_) fun part hpart ↦ ih part ?_
    · simp only [Node.call.sizeOf_spec]
      omega
    · have hsmaller := hlist hpart
      simp only [Node.call.sizeOf_spec]
      omega
  case access name line => exact access name line
  case assignment name value declares line =>
    refine assignment name value declares line (ih value ?_)
    simp only [Node.assignment.sizeOf_spec]
    omega
  case function name parameters body line =>
    refine function name parameters body line fun part hpart ↦ ih part ?_
    have hsmaller := hblock hpart
    simp only [Node.function.sizeOf_spec]
    omega
  case ret value line =>
    refine ret value line (ih value ?_)
    simp only [Node.ret.sizeOf_spec]
    omega
  case conditional condition thenBlock elseBlock line =>
    refine conditional condition thenBlock elseBlock line (ih condition ?_) (fun part hpart ↦ ih part ?_)
      fun part hpart ↦ ih part ?_
    · simp only [Node.conditional.sizeOf_spec]
      omega
    · have hsmaller := hblock hpart
      simp only [Node.conditional.sizeOf_spec]
      omega
    · have hsmaller := hblock hpart
      simp only [Node.conditional.sizeOf_spec]
      omega
  case object fields line =>
    refine object fields line fun field hmem ↦ ih field.value ?_
    have hsmaller := hfield hmem
    simp only [Node.object.sizeOf_spec]
    omega
  case fieldAccess receiver name line =>
    refine fieldAccess receiver name line (ih receiver ?_)
    simp only [Node.fieldAccess.sizeOf_spec]
    omega
  case fieldAssignment receiver name value line =>
    refine fieldAssignment receiver name value line (ih receiver ?_) (ih value ?_)
    · simp only [Node.fieldAssignment.sizeOf_spec]
      omega
    · simp only [Node.fieldAssignment.sizeOf_spec]
      omega
  case methodCall receiver name arguments line =>
    refine methodCall receiver name arguments line (ih receiver ?_) fun part hpart ↦ ih part ?_
    · simp only [Node.methodCall.sizeOf_spec]
      omega
    · have hsmaller := hlist hpart
      simp only [Node.methodCall.sizeOf_spec]
      omega
termination_by sizeOf node

/-! ### Identities of function literals -/

/-- The identities of some functions increase and lie in a range. -/
structure Closure.Numbered (first count : Nat) (closures : List Closure) : Prop where
  sorted : closures.Pairwise fun earlier later ↦ earlier.identity < later.identity
  bounds : ∀ closure ∈ closures, first ≤ closure.identity ∧ closure.identity < first + count

namespace Closure.Numbered

variable {first count more : Nat} {closures added : List Closure}

theorem nil (first count : Nat) : Closure.Numbered first count [] :=
  ⟨List.Pairwise.nil, by rintro _ ⟨⟩⟩

/-- Ranges one behind the other make up a larger one. -/
theorem append (hclosures : Closure.Numbered first count closures)
    (hadded : Closure.Numbered (first + count) more added) :
    Closure.Numbered first (count + more) (closures ++ added) := by
  refine ⟨List.pairwise_append.mpr ⟨hclosures.sorted, hadded.sorted, fun earlier hearlier later hlater ↦ ?_⟩,
    fun closure hclosure ↦ ?_⟩
  · have hbelow := (hclosures.bounds earlier hearlier).2
    have habove := (hadded.bounds later hlater).1
    omega
  · rcases List.mem_append.mp hclosure with hold | hnew
    · have hbounds := hclosures.bounds closure hold
      omega
    · have hbounds := hadded.bounds closure hnew
      omega

/-- The function of a body comes after the functions in it. -/
theorem ofBody {body : Block Node} (hbody : Closure.Numbered first (sitesOf body.nodes) closures)
    (name : String) (parameters : List String) :
    Closure.Numbered first (sitesOf body.nodes + 1)
      (closures ++ [Closure.ofBody first name parameters body]) := by
  refine hbody.append ⟨List.pairwise_singleton _ _, fun closure hclosure ↦ ?_⟩
  rw [List.mem_singleton.mp hclosure]
  exact ⟨Nat.le_refl _, Nat.lt_succ_self _⟩

/-- Every function is found by its identity. -/
theorem find?_eq (hclosures : Closure.Numbered first count closures) {closure : Closure}
    (hmem : closure ∈ closures) {identity : Nat} (hidentity : closure.identity = identity) :
    closures.find? (fun other ↦ other.identity == identity) = some closure := by
  obtain ⟨before, after, rfl⟩ := List.append_of_mem hmem
  have hbefore : before.find? (fun other ↦ other.identity == identity) = none := by
    rw [List.find?_eq_none]
    intro other hother hsame
    have hless := (List.pairwise_append.mp hclosures.sorted).2.2 other hother closure List.mem_cons_self
    rw [beq_iff_eq.mp hsame, hidentity] at hless
    exact Nat.lt_irrefl _ hless
  rw [List.find?_append, hbefore, List.find?_cons, hidentity, beq_self_eq_true]
  rfl

/-- No function is found by an identity below the range. -/
theorem find?_eq_none (hclosures : Closure.Numbered first count closures) {identity : Nat}
    (hless : identity < first) :
    closures.find? (fun other ↦ other.identity == identity) = none := by
  rw [List.find?_eq_none]
  intro other hother hsame
  have hbound := (hclosures.bounds other hother).1
  rw [beq_iff_eq.mp hsame] at hbound
  omega

end Closure.Numbered

/-- The function literals of several nodes are numbered when those of each node are. -/
theorem numbered_closuresOf {nodes : List Node}
    (hnodes : ∀ node ∈ nodes, ∀ first : Nat, Closure.Numbered first node.sites (node.closures first))
    (first : Nat) : Closure.Numbered first (sitesOf nodes) (closuresOf first nodes) := by
  induction nodes generalizing first with
  | nil =>
    rw [closuresOf]
    exact .nil _ _
  | cons node rest ih =>
    rw [closuresOf, sitesOf]
    exact (hnodes node List.mem_cons_self first).append
      (ih (fun other hother ↦ hnodes other (List.mem_cons_of_mem _ hother)) _)

/-- The function literals in the initial values of fields are numbered when those of each value are. -/
theorem numbered_fieldClosures {fields : List (Field Node)}
    (hfields : ∀ field ∈ fields, ∀ first : Nat,
      Closure.Numbered first field.value.sites (field.value.closures first))
    (first : Nat) : Closure.Numbered first (fieldSites fields) (fieldClosures first fields) := by
  induction fields generalizing first with
  | nil =>
    rw [fieldClosures]
    exact .nil _ _
  | cons field rest ih =>
    rw [fieldClosures, fieldSites]
    exact (hfields field List.mem_cons_self first).append
      (ih (fun other hother ↦ hfields other (List.mem_cons_of_mem _ hother)) _)

/-- The function literals of a node are numbered in the order in which they are finished. -/
theorem Node.numbered_closures (node : Node) :
    ∀ first : Nat, Closure.Numbered first node.sites (node.closures first) := by
  induction node using Node.induction with
  | block body hbody =>
    intro first
    rw [Node.closures, Node.sites]
    exact numbered_closuresOf hbody first
  | literal value line =>
    intro first
    rw [Node.closures]
    exact .nil _ _
  | call callee arguments line hcallee harguments =>
    intro first
    rw [Node.closures, Node.sites]
    exact (hcallee first).append (numbered_closuresOf harguments _)
  | access name line =>
    intro first
    rw [Node.closures]
    exact .nil _ _
  | assignment name value declares line hvalue =>
    intro first
    rw [Node.closures, Node.sites]
    exact hvalue first
  | function name parameters body line hbody =>
    intro first
    rw [Node.closures, Node.sites]
    exact (numbered_closuresOf hbody first).ofBody _ _
  | ret value line hvalue =>
    intro first
    rw [Node.closures, Node.sites]
    exact hvalue first
  | conditional condition thenBlock elseBlock line hcondition hthen helse =>
    intro first
    rw [Node.closures, Node.sites]
    refine ((hcondition first).append (numbered_closuresOf hthen _)).append ?_
    rw [← Nat.add_assoc]
    exact numbered_closuresOf helse _
  | object fields line hfields =>
    intro first
    rw [Node.closures, Node.sites]
    have hnumbered := (numbered_fieldClosures hfields first).append (.nil _ 1)
    rw [List.append_nil] at hnumbered
    exact hnumbered
  | fieldAccess receiver name line hreceiver =>
    intro first
    rw [Node.closures, Node.sites]
    exact hreceiver first
  | fieldAssignment receiver name value line hreceiver hvalue =>
    intro first
    rw [Node.closures, Node.sites]
    exact (hreceiver first).append (hvalue _)
  | methodCall receiver name arguments line hreceiver harguments =>
    intro first
    rw [Node.closures, Node.sites]
    exact (hreceiver first).append (numbered_closuresOf harguments _)

/-- The functions of a script are numbered, the one of its body last. -/
theorem Script.numbered_closures (script : Script) (first : Nat) :
    Closure.Numbered first script.sites (script.closures first) :=
  (numbered_closuresOf (fun node _ ↦ node.numbered_closures) first).ofBody _ _

end ScriptMachine
