import ScriptMachine.Proofs.JsonScanning

/-!
# Reading what was written

The reader builds a JSON value from its tokens and delivers it to whatever array or object is open around it
(`Json.reads_tokens`). So the text of a value without decimals says that value (`Json.parse?_render`).
-/

set_option autoImplicit false
set_option relaxedAutoImplicit false

namespace ScriptMachine

namespace Json

/-- The reader builds a value from its tokens wherever a value may come, and delivers it. -/
def Reads (json : Json) : Prop :=
  ∀ frames : List Frame, json.tokens.foldlM Reader.step ⟨frames, .value⟩ = some (Reader.deliver frames json)

/-- A value does not begin with the end of an array. -/
theorem exists_tokens_eq (json : Json) : ∃ (first : Token) (rest : List Token), json.tokens = first :: rest ∧
    ∀ frames : List Frame, Reader.step ⟨frames, .firstItem⟩ first = Reader.step ⟨frames, .value⟩ first := by
  cases json <;> exact ⟨_, _, rfl, fun _ ↦ rfl⟩

/-- The first item of an array is read like any other one. -/
theorem Reads.first {json : Json} (hreads : json.Reads) (frames : List Frame) :
    json.tokens.foldlM Reader.step ⟨frames, .firstItem⟩ = some (Reader.deliver frames json) := by
  obtain ⟨first, rest, htokens, hsame⟩ := json.exists_tokens_eq
  have hvalue := hreads frames
  rw [htokens, List.foldlM_cons] at hvalue ⊢
  rwa [hsame]

/-- Further items of an array come behind those that were read. -/
theorem reads_moreItems {items : List Json} (hitems : ∀ item ∈ items, item.Reads) (reversed : List Json)
    (outer : List Frame) :
    (moreItemsTokens items).foldlM Reader.step ⟨.array reversed :: outer, .separator⟩ =
      some ⟨.array (items.reverse ++ reversed) :: outer, .separator⟩ := by
  induction items generalizing reversed with
  | nil => rfl
  | cons item rest ih =>
    obtain ⟨hitem, hrest⟩ := List.forall_mem_cons.mp hitems
    rw [moreItemsTokens, List.cons_append, List.foldlM_cons]
    show List.foldlM Reader.step ⟨.array reversed :: outer, .value⟩ _ = _
    rw [List.foldlM_append, hitem, List.reverse_cons, List.append_assoc]
    exact ih hrest (item :: reversed)

/-- An array is read from its items. -/
theorem reads_array {items : List Json} (hitems : ∀ item ∈ items, item.Reads) : Reads (.array items) := by
  intro frames
  rw [tokens, List.cons_append, List.foldlM_cons]
  show List.foldlM Reader.step ⟨.array [] :: frames, .firstItem⟩ (itemsTokens items ++ [.closeArray]) = _
  cases items with
  | nil => rfl
  | cons item rest =>
    obtain ⟨hitem, hrest⟩ := List.forall_mem_cons.mp hitems
    rw [itemsTokens, List.append_assoc, List.foldlM_append, hitem.first]
    show List.foldlM Reader.step ⟨.array [item] :: frames, .separator⟩ _ = _
    rw [List.foldlM_append, reads_moreItems hrest]
    show some (Reader.deliver frames (.array (rest.reverse ++ [item]).reverse)) = _
    rw [List.reverse_append, List.reverse_reverse]
    rfl

/-- Further members of an object come behind those that were read. -/
theorem reads_moreMembers {members : List (Member Json)} (hmembers : ∀ member ∈ members, member.value.Reads)
    (reversed : List (Member Json)) (outer : List Frame) :
    (moreMembersTokens members).foldlM Reader.step ⟨.object reversed none :: outer, .separator⟩ =
      some ⟨.object (members.reverse ++ reversed) none :: outer, .separator⟩ := by
  induction members generalizing reversed with
  | nil => rfl
  | cons member rest ih =>
    obtain ⟨hvalue, hrest⟩ := List.forall_mem_cons.mp hmembers
    rw [moreMembersTokens]
    show List.foldlM Reader.step ⟨.object reversed member.name :: outer, .value⟩
      (member.value.tokens ++ moreMembersTokens rest) = _
    rw [List.foldlM_append, hvalue, List.reverse_cons, List.append_assoc]
    exact ih hrest (member :: reversed)

/-- An object is read from its members. -/
theorem reads_object {members : List (Member Json)} (hmembers : ∀ member ∈ members, member.value.Reads) :
    Reads (.object members) := by
  intro frames
  rw [tokens, List.cons_append, List.foldlM_cons]
  show List.foldlM Reader.step ⟨.object [] none :: frames, .firstName⟩ (membersTokens members ++ [.closeObject]) = _
  cases members with
  | nil => rfl
  | cons member rest =>
    obtain ⟨hvalue, hrest⟩ := List.forall_mem_cons.mp hmembers
    rw [membersTokens]
    show List.foldlM Reader.step ⟨.object [] member.name :: frames, .value⟩
      ((member.value.tokens ++ moreMembersTokens rest) ++ [.closeObject]) = _
    rw [List.append_assoc, List.foldlM_append, hvalue]
    show List.foldlM Reader.step ⟨.object [member] none :: frames, .separator⟩ _ = _
    rw [List.foldlM_append, reads_moreMembers hrest]
    show some (Reader.deliver frames (.object (rest.reverse ++ [member]).reverse)) = _
    rw [List.reverse_append, List.reverse_reverse]
    rfl

/-- Every value is read from its tokens. -/
theorem reads_tokens (json : Json) : json.Reads := by
  induction json using Json.induction with
  | null => exact fun _ ↦ rfl
  | boolean value => exact fun _ ↦ rfl
  | number value => exact fun _ ↦ rfl
  | text content => exact fun _ ↦ rfl
  | array items ih => exact reads_array ih
  | object members ih => exact reads_object ih

/-- The text of a value without decimals says that value. -/
theorem parse?_render {json : Json} (hintegral : json.isIntegral = true) : parse? json.render = some json := by
  unfold parse? render
  rw [String.toList_ofList, tokens?_renderChars hintegral]
  show (json.tokens.foldlM Reader.step ⟨[], .value⟩).bind Reader.result? = some json
  rw [json.reads_tokens]
  rfl

end Json

end ScriptMachine
