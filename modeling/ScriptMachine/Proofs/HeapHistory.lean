import ScriptMachine.Proofs.FailedSteps

/-!
# The history of the heap

A machine remembers the changes that were made to its heap (`Machine.Remembers`): the used words split into the
objects that these changes make, every live word leads to one of the objects or is no reference, and every
field holds the value that it was given last (`HeapChange.lastValue`). An instruction adds the change that comes
with it (`Tracked.remembers_step`), so that a run adds those of all its instructions (`Tracked.remembers_run`).
-/

set_option autoImplicit false
set_option relaxedAutoImplicit false

namespace ScriptMachine

/-! ### Changes one after the other -/

/-- Different fields of a class have different slots. -/
theorem Class.eq_of_slotOf?_eq {layout : Class} {first second : String} {slot : Nat}
    (hfirst : layout.slotOf? first = some slot) (hsecond : layout.slotOf? second = some slot) :
    first = second := by
  obtain ⟨hinside, hsame⟩ := List.findIdx?_eq_some_iff_getElem.mp hfirst
  obtain ⟨_, hother⟩ := List.findIdx?_eq_some_iff_getElem.mp hsecond
  exact (eq_of_beq hsame.1).symm.trans (eq_of_beq hother.1)

/-- A name leads to no slot if it is not among the fields. -/
theorem Class.slotOf?_eq_none_iff {layout : Class} {name : String} :
    layout.slotOf? name = none ↔ name ∉ layout.fields := by
  rw [slotOf?, List.findIdx?_eq_none_iff]
  constructor
  · intro hnone hmem
    simpa using hnone name hmem
  · intro hmissing field hfield
    exact beq_eq_false_iff_ne.mpr fun hsame ↦ hmissing (hsame ▸ hfield)

namespace HeapChange

/-- The objects that some changes make on an empty heap. -/
def rowsOf (changes : List HeapChange) : List HeapRow :=
  changes.foldl (fun rows change ↦ change.rows rows) []

/-- The value that a change gives to a field of the object at an index. -/
def given? (index : Nat) (name : String) : HeapChange → Option Value
  | .make made layout _ values => if made = index then (layout.slotOf? name).bind fun slot ↦ values[slot]? else none
  | .assign object field _ _ value => if object.index.toNat = index ∧ field = name then some value else none

/-- The value that a field of the object at an index was given last. -/
def lastValue (index : Nat) (name : String) (changes : List HeapChange) : Option Value :=
  (changes.filterMap (given? index name)).getLast?

theorem rowsOf_append (changes : List HeapChange) (change : HeapChange) :
    rowsOf (changes ++ [change]) = change.rows (rowsOf changes) := by
  rw [rowsOf, List.foldl_append]
  rfl

theorem lastValue_append (index : Nat) (name : String) (changes : List HeapChange) (change : HeapChange) :
    lastValue index name (changes ++ [change]) =
      match given? index name change with
      | some value => some value
      | none => lastValue index name changes := by
  unfold lastValue
  rw [List.filterMap_append]
  cases hgiven : given? index name change with
  | none => simp [hgiven]
  | some value => simp [hgiven]

/-- A change is one that a machine with some objects on its heap can make. A new object comes behind the others
with a field for each one of its class, and an assigned field belongs to an object of its class. The words lead
somewhere, and the values are theirs. -/
inductive Suits (machine : Machine) (rows : List HeapRow) : HeapChange → Prop where
  | make {layout : Class} {row : HeapRow}
      (hheader : machine.constants.constant? row.header = some (.layout layout))
      (hlength : row.fields.length = layout.fieldCount)
      (hleads : ∀ word ∈ row.fields, machine.heap.Leads machine.constants rows word) :
      Suits machine rows (.make machine.heap.used layout row (row.fields.map machine.read))
  | assign {object : ObjectRef} {name : String} {slot : Nat} {word : Word} {row : HeapRow}
      (hrow : HeapRow.at? rows object.index.toNat = some row)
      (hheader : machine.constants.constant? row.header = some (.layout object.layout))
      (hslot : object.layout.slotOf? name = some slot)
      (hleads : machine.heap.Leads machine.constants rows word) :
      Suits machine rows (.assign object name slot word (machine.read word))

namespace Suits

variable {machine : Machine} {rows : List HeapRow} {change : HeapChange}

/-- An assigned field is one of the object. -/
theorem slot_lt (hshaped : HeapRow.Shaped machine.constants rows) {object : ObjectRef} {name : String}
    {slot : Nat} {row : HeapRow} (hrow : HeapRow.at? rows object.index.toNat = some row)
    (hheader : machine.constants.constant? row.header = some (.layout object.layout))
    (hslot : object.layout.slotOf? name = some slot) : slot < row.fields.length := by
  obtain ⟨layout, hlayout, hlength⟩ := hshaped row (HeapRow.mem_of_at? hrow)
  obtain rfl := Value.layout.inj (Option.some.inj (hlayout.symm.trans hheader))
  exact hlength ▸ Class.slotOf?_lt hslot

/-- The words of the objects change as the used words of the heap do. -/
theorem flatMap_rows (hshaped : HeapRow.Shaped machine.constants rows) (hsuits : Suits machine rows change) :
    (change.rows rows).flatMap HeapRow.words = change.contents (rows.flatMap HeapRow.words) := by
  cases hsuits with
  | make => simp only [HeapChange.rows, HeapChange.contents, List.flatMap_append, List.flatMap_cons,
      List.flatMap_nil, List.append_nil]
  | assign hrow hheader hslot => exact HeapRow.flatMap_assign hrow (slot_lt hshaped hrow hheader hslot) _

/-- Objects stay where they are with their headers. -/
theorem kept (hsuits : Suits machine rows change) : HeapRow.Kept rows (change.rows rows) := by
  intro index row hrow
  cases hsuits with
  | make =>
    have hinside := HeapRow.add_size_le_of_at? hrow
    have hpositive := row.size_pos
    refine ⟨row, ?_, rfl⟩
    rw [HeapChange.rows, HeapRow.at?_append, if_neg (by omega)]
    exact hrow
  | assign =>
    rw [HeapChange.rows, HeapRow.at?_assign]
    split_ifs with hsame
    · rw [← hsame, hrow]
      exact ⟨_, rfl, rfl⟩
    · exact ⟨row, hrow, rfl⟩

/-- Objects have as many fields as their classes. -/
theorem shaped (hshaped : HeapRow.Shaped machine.constants rows) (hsuits : Suits machine rows change) :
    HeapRow.Shaped machine.constants (change.rows rows) := by
  intro row hrow
  cases hsuits with
  | make hheader hlength =>
    rcases List.mem_append.mp hrow with hold | hnew
    · exact hshaped row hold
    · rw [List.mem_singleton.mp hnew]
      exact ⟨_, hheader, hlength⟩
  | assign =>
    rcases HeapRow.mem_assign hrow with hold | ⟨old, hold, rfl⟩
    · exact hshaped row hold
    · obtain ⟨layout, hheader, hlength⟩ := hshaped old hold
      exact ⟨layout, hheader, List.length_set.trans hlength⟩

end Suits

end HeapChange

/-! ### What a machine remembers -/

namespace Machine

/-- A reference to an object leads to it, and its class is that of the object. -/
structure Finds (machine : Machine) (rows : List HeapRow) (object : ObjectRef) : Prop where
  reference : (Word.reference object.index).reference? = some object.index
  leads : machine.heap.Leads machine.constants rows (Word.reference object.index)
  decodes : machine.decode (Word.reference object.index) = .ok (.object object)

/-- The used words of a machine split into the objects that some changes make. Live words and the words of
objects that globals are bound to lead to these objects. The word of every field stands for the value that the
field was given last. -/
structure Remembers (machine : Machine) (changes : List HeapChange) (live : List Word) : Prop where
  splits : machine.heap.Splits machine.constants (HeapChange.rowsOf changes)
  live : ∀ word ∈ live, machine.heap.Leads machine.constants (HeapChange.rowsOf changes) word
  globals : ∀ (name : String) (object : ObjectRef), machine.globals.lookup name = .object object →
    machine.Finds (HeapChange.rowsOf changes) object
  fields : ∀ (index : Nat) (row : HeapRow) (layout : Class) (name : String) (slot : Nat),
    HeapRow.at? (HeapChange.rowsOf changes) index = some row →
      machine.constants.constant? row.header = some (.layout layout) → layout.slotOf? name = some slot →
      ∃ (word : Word) (value : Value), row.fields[slot]? = some word ∧ machine.decode word = .ok value ∧
        HeapChange.lastValue index name changes = some value

/-- In a machine that shows a valid world, words that hold values lead somewhere, and objects are found. -/
theorem Shows.leads {machine : Machine} {world : World} {registry : Registry} {known : List Value}
    (hshows : machine.Shows world) (hvalid : world.Valid registry known) {rows : List HeapRow}
    (hshaped : HeapRow.Shaped machine.constants rows)
    (hcontents : machine.heap.contents = rows.flatMap HeapRow.words) :
    machine.heap.Splits machine.constants rows ∧
      (∀ (word : Word) (value : Value), machine.constants.value? world.store.records word = some value →
        machine.heap.Leads machine.constants rows word) ∧
      ∀ object : ObjectRef, (Value.object object).Present world.store.records → machine.Finds rows object := by
  obtain ⟨found, hsplits, hleads⟩ := hshows.heap.exists_splits hvalid.shaped
  obtain rfl := hsplits.congr hshaped hcontents
  refine ⟨hsplits, hleads, fun object hpresent ↦ ?_⟩
  have hlayout : Store.layoutAt? world.store.records object.index.toNat = some object.layout := hpresent
  have hkind := Word.kind_reference object.index (hshows.heap.lt_indexLimit_of_layoutAt? hlayout)
  have hvalue : machine.constants.value? world.store.records (Word.reference object.index) =
      some (.object object) := by
    simp only [ConstantTable.value?, hkind, hlayout, Option.map_some]
  exact ⟨by rw [Word.reference?, hkind], hleads _ _ hvalue, hshows.heap.decode hvalue⟩

namespace Remembers

variable {machine later : Machine} {changes : List HeapChange} {live : List Word} {object : ObjectRef}

/-- A field of an object that is found has the value that it was given last. -/
theorem getField (hremembers : machine.Remembers changes live)
    (hfinds : machine.Finds (HeapChange.rowsOf changes) object) (name : String) :
    match object.layout.slotOf? name with
    | none => machine.getField object name = .ok .undefined
    | some _ => ∃ value : Value, machine.getField object name = .ok value ∧
        HeapChange.lastValue object.index.toNat name changes = some value := by
  obtain ⟨row, layout, hrow, hheader, hdecoded⟩ := hfinds.leads.decode_eq hfinds.reference
  have hsame : object = ⟨object.index, layout⟩ :=
    Value.object.inj (Except.ok.inj (hfinds.decodes.symm.trans hdecoded))
  have hlayout : object.layout = layout := congrArg ObjectRef.layout hsame
  rw [Machine.getField]
  cases hslot : object.layout.slotOf? name with
  | none => rfl
  | some slot =>
    obtain ⟨word, value, hword, hvalue, hlast⟩ :=
      hremembers.fields _ _ _ name slot hrow hheader (hlayout ▸ hslot)
    refine ⟨value, ?_, hlast⟩
    dsimp only
    rw [hremembers.splits.field hrow hword, hvalue]

/-- The value of a word that leads somewhere is read, and still when more has happened. -/
theorem read_eq {rows laterRows : List HeapRow} {word : Word}
    (hleads : machine.heap.Leads machine.constants rows word)
    (hsplits : later.heap.Splits later.constants laterRows)
    (hextends : machine.constants.Extends later.constants) (hkept : HeapRow.Kept rows laterRows) :
    later.decode word = .ok (machine.read word) := by
  obtain ⟨value, hvalue⟩ := hleads.decodes
  have hread : machine.read word = value := by rw [Machine.read, Machine.decode, hvalue]
  rw [hread]
  exact (hleads.keep hsplits hextends hkept).2 value hvalue

/-- A field that is not assigned keeps its value. -/
theorem field_of_kept (hremembers : machine.Remembers changes live) {laterRows : List HeapRow}
    (hsplits : later.heap.Splits later.constants laterRows)
    (hextends : machine.constants.Extends later.constants)
    (hkept : HeapRow.Kept (HeapChange.rowsOf changes) laterRows) {index slot : Nat} {row : HeapRow}
    {layout : Class} {name : String} (hrow : HeapRow.at? (HeapChange.rowsOf changes) index = some row)
    (hheader : later.constants.constant? row.header = some (.layout layout))
    (hslot : layout.slotOf? name = some slot) :
    ∃ (word : Word) (value : Value), row.fields[slot]? = some word ∧ later.decode word = .ok value ∧
      HeapChange.lastValue index name changes = some value := by
  have hmem := HeapRow.mem_of_at? hrow
  obtain ⟨found, hfound, -⟩ := hremembers.splits.shaped row hmem
  obtain rfl := Value.layout.inj (Option.some.inj
    (hheader.symm.trans (ConstantTable.constant?_mono hextends hfound)))
  obtain ⟨word, value, hword, hvalue, hlast⟩ := hremembers.fields index row layout name slot hrow hfound hslot
  have hleads := hremembers.splits.fields row hmem word (List.mem_of_getElem? hword)
  exact ⟨word, value, hword, (hleads.keep hsplits hextends hkept).2 value hvalue, hlast⟩

/-- After a change, every field has the value that it was given last. -/
theorem fields_of_suits (hremembers : machine.Remembers changes live) {change : HeapChange}
    (hsuits : HeapChange.Suits machine (HeapChange.rowsOf changes) change)
    (hsplits : later.heap.Splits later.constants (HeapChange.rowsOf (changes ++ [change])))
    (hextends : machine.constants.Extends later.constants) {index slot : Nat} {row : HeapRow}
    {layout : Class} {name : String}
    (hrow : HeapRow.at? (HeapChange.rowsOf (changes ++ [change])) index = some row)
    (hheader : later.constants.constant? row.header = some (.layout layout))
    (hslot : layout.slotOf? name = some slot) :
    ∃ (word : Word) (value : Value), row.fields[slot]? = some word ∧ later.decode word = .ok value ∧
      HeapChange.lastValue index name (changes ++ [change]) = some value := by
  have hkept := hsuits.kept
  rw [← HeapChange.rowsOf_append] at hkept
  rw [HeapChange.lastValue_append]
  rw [HeapChange.rowsOf_append] at hrow
  cases hsuits with
  | @make shape added hadded hlength hleads =>
    rw [HeapChange.rows, HeapRow.at?_append, ← hremembers.splits.contents, Heap.length_contents] at hrow
    split_ifs at hrow with hnew
    · -- a new object has the values that it was made of
      obtain rfl := Option.some.inj hrow
      obtain rfl := Value.layout.inj (Option.some.inj
        (hheader.symm.trans (ConstantTable.constant?_mono hextends hadded)))
      have hinside : slot < added.fields.length := hlength ▸ Class.slotOf?_lt hslot
      refine ⟨added.fields[slot], machine.read added.fields[slot], List.getElem?_eq_getElem hinside,
        read_eq (hleads _ (List.getElem_mem hinside)) hsplits hextends hkept, ?_⟩
      simp [HeapChange.given?, hnew, hslot, hinside]
    · simp only [HeapChange.given?, if_neg (Ne.symm hnew)]
      exact hremembers.field_of_kept hsplits hextends hkept hrow hheader hslot
  | @assign object field place word old hold hclass hplace hleads =>
    rw [HeapChange.rows, HeapRow.at?_assign] at hrow
    split_ifs at hrow with hsame
    · rw [hold] at hrow
      obtain rfl := Option.some.inj hrow
      obtain rfl := Value.layout.inj (Option.some.inj
        (hheader.symm.trans (ConstantTable.constant?_mono hextends hclass)))
      by_cases hname : field = name
      · subst hname
        obtain rfl := Option.some.inj (hslot.symm.trans hplace)
        have hinside := HeapChange.Suits.slot_lt hremembers.splits.shaped hold hclass hslot
        refine ⟨word, machine.read word, List.getElem?_set_self hinside,
          read_eq hleads hsplits hextends hkept, ?_⟩
        simp [HeapChange.given?, hsame]
      · -- the other fields of the object lie in other slots
        have hother : place ≠ slot := fun hslots ↦
          hname (Class.eq_of_slotOf?_eq (hslots ▸ hplace) hslot)
        simp only [HeapChange.given?, hname, and_false, if_false, List.getElem?_set_ne hother]
        exact hremembers.field_of_kept hsplits hextends hkept (hsame ▸ hold) hheader hslot
    · simp only [HeapChange.given?, Ne.symm hsame, false_and, if_false]
      exact hremembers.field_of_kept hsplits hextends hkept hrow hheader hslot

/-- A machine remembers more changes when the objects from before are kept and the fields are right. -/
theorem of_kept (hremembers : machine.Remembers changes live) {more : List HeapChange}
    (hshaped : HeapRow.Shaped machine.constants (HeapChange.rowsOf more))
    (hkept : HeapRow.Kept (HeapChange.rowsOf changes) (HeapChange.rowsOf more))
    (hcontents : later.heap.contents = (HeapChange.rowsOf more).flatMap HeapRow.words)
    (hextends : machine.constants.Extends later.constants) {world : World} {registry : Registry}
    {known : List Value} (hshows : later.Shows world) (hvalid : world.Valid registry known)
    (hfields : later.heap.Splits later.constants (HeapChange.rowsOf more) →
      ∀ (index : Nat) (row : HeapRow) (layout : Class) (name : String) (slot : Nat),
        HeapRow.at? (HeapChange.rowsOf more) index = some row →
          later.constants.constant? row.header = some (.layout layout) → layout.slotOf? name = some slot →
          ∃ (word : Word) (value : Value), row.fields[slot]? = some word ∧ later.decode word = .ok value ∧
            HeapChange.lastValue index name more = some value) : later.Remembers more live := by
  obtain ⟨hsplits, -, hfinds⟩ := hshows.leads hvalid (hshaped.mono hextends) hcontents
  refine ⟨hsplits, fun word hword ↦ ((hremembers.live word hword).keep hsplits hextends hkept).1,
    fun name object hglobal ↦ hfinds object ?_, hfields hsplits⟩
  rw [← hglobal, hshows.globals]
  exact (hvalid.globals name).present

/-- What a change does to a machine is remembered. Nothing else happens to the heap, and the machine still shows
a valid world. -/
theorem apply (hremembers : machine.Remembers changes live) {change : Option HeapChange}
    (hsuits : ∀ made : HeapChange, change = some made →
      HeapChange.Suits machine (HeapChange.rowsOf changes) made)
    (hcontents : later.heap.contents =
      change.elim machine.heap.contents fun made ↦ made.contents machine.heap.contents)
    (hextends : machine.constants.Extends later.constants) {world : World} {registry : Registry}
    {known : List Value} (hshows : later.Shows world) (hvalid : world.Valid registry known) :
    later.Remembers (changes ++ change.toList) live := by
  have hshaped := hremembers.splits.shaped
  rw [hremembers.splits.contents] at hcontents
  cases change with
  | none =>
    rw [Option.toList_none, List.append_nil]
    have hkept := HeapRow.Kept.refl (HeapChange.rowsOf changes)
    exact hremembers.of_kept hshaped hkept hcontents hextends hshows hvalid
      fun hsplits _ _ _ _ _ hrow hheader hslot ↦
        hremembers.field_of_kept hsplits hextends hkept hrow hheader hslot
  | some made =>
    have hmade := hsuits made rfl
    refine hremembers.of_kept ?_ ?_ ?_ hextends hshows hvalid fun hsplits _ _ _ _ _ hrow hheader hslot ↦
      hremembers.fields_of_suits hmade hsplits hextends hrow hheader hslot
    all_goals rw [Option.toList_some, HeapChange.rowsOf_append]
    · exact hmade.shaped hshaped
    · exact hmade.kept
    · exact hcontents.trans (hmade.flatMap_rows hshaped).symm

end Remembers

end Machine

/-! ### Running machines -/

/-- The variables and the operands of all frames. -/
def FrameChain.live (chain : FrameChain) : List Word :=
  (chain.current :: chain.callers).flatMap fun segment ↦ segment.locals ++ segment.operands

/-- The operand of an instruction that makes an object is a constant. -/
theorem ConstantTable.constant?_of_decode {table : ConstantTable} {heap : Heap} {word : Word} {layout : Class}
    (hlayout : decode table heap word = .ok (.layout layout)) :
    table.constant? word = some (.layout layout) := by
  unfold decode decodeWithin at hlayout
  unfold constant?
  cases hkind : word.kind with
  | smallInteger number =>
    rw [hkind] at hlayout
    cases hlayout
  | constant index =>
    rw [hkind] at hlayout
    dsimp only at hlayout ⊢
    cases hentry : table.get? index with
    | none =>
      rw [hentry] at hlayout
      cases hlayout
    | some entry =>
      rw [hentry] at hlayout
      rw [Except.ok.inj hlayout]
  | reference index =>
    rw [hkind] at hlayout
    dsimp only at hlayout
    split at hlayout
    · cases hlayout
    · split at hlayout <;> cases hlayout

/-- The changes of the heap that come with the first instructions of a run. -/
def Activity.changes : (steps : Nat) → Activity → List HeapChange
  | 0, _ => []
  | steps + 1, activity =>
    activity.change?.toList ++
      match Execution.step activity with
      | .ok none next => Activity.changes steps next
      | _ => []

theorem Activity.changes_one (activity : Activity) : activity.changes 1 = activity.change?.toList := by
  simp only [Activity.changes]
  split <;> exact List.append_nil _

/-- An instruction that leads on comes before the others. -/
theorem Activity.changes_of_continues {activity next : Activity} (hcontinues : activity.Continues next)
    (steps : Nat) : activity.changes (steps + 1) = activity.change?.toList ++ next.changes steps := by
  unfold Activity.Continues at hcontinues
  rw [Activity.changes, hcontinues]

namespace Tracked

variable {limit : Nat} {registry : Registry} {known : List Value} {activity : Activity}
  {chain : FrameChain} {calls : CallStack}

/-- Every live word holds a value. -/
theorem exists_value?_of_mem_live (htracked : Tracked limit registry known activity chain calls) {word : Word}
    (hword : word ∈ chain.live) :
    ∃ value : Value, calls.constants.value? calls.world.store.records word = some value := by
  obtain ⟨segment, hmem, hlive⟩ := List.mem_flatMap.mp hword
  obtain ⟨level, hlevel⟩ := htracked.mirrors.exists_holds hmem
  rcases List.mem_append.mp hlive with hlocal | hoperand
  · exact hlevel.locals.exists_value? hlocal
  · exact hlevel.operands.exists_value? hoperand

/-- In a running machine whose used words are those of some objects, every live word leads somewhere. -/
theorem leads_of_mem_live (htracked : Tracked limit registry known activity chain calls)
    {rows : List HeapRow} (hshaped : HeapRow.Shaped activity.machine.constants rows)
    (hcontents : activity.machine.heap.contents = rows.flatMap HeapRow.words) {word : Word}
    (hword : word ∈ chain.live) :
    activity.machine.heap.Leads activity.machine.constants rows word := by
  obtain ⟨value, hvalue⟩ := htracked.exists_value?_of_mem_live hword
  have hshows : activity.machine.Shows calls.world := htracked.mirrors.realizes.rests.shows
  refine (hshows.leads htracked.valid.world hshaped hcontents).2.1 word value ?_
  rw [show activity.machine.constants = calls.constants from htracked.mirrors.realizes.constants]
  exact hvalue

/-- The words on top of the stack are operands. -/
theorem topmost_eq (htracked : Tracked limit registry known activity chain calls) {count : Nat}
    (hcount : count ≤ chain.current.operands.length) :
    activity.machine.stack.topmost count = (chain.current.operands.take count).reverse := by
  have hview := htracked.mirrors.view
  have hbelow : activity.machine.stack.top - count =
      (chain.floor ++ (chain.current.operands.drop count).reverse).length := by
    rw [hview.top_eq_operands, List.length_append, List.length_reverse, List.length_drop]
    omega
  have hslice := Stack.slice_eq (chain.floor ++ (chain.current.operands.drop count).reverse)
    (chain.current.operands.take count).reverse [] (by
      rw [show activity.machine.stack.contents = chain.floor ++ chain.current.operands.reverse from
        hview.contents, List.append_nil, List.append_assoc, ← List.reverse_append, List.take_append_drop])
  rwa [← hbelow, List.length_reverse, List.length_take_of_le hcount] at hslice

/-- The operands are read from the top of the stack. -/
theorem cell_mem_operands (htracked : Tracked limit registry known activity chain calls) {depth : Nat}
    (hdepth : depth < chain.current.operands.length) :
    activity.machine.stack.cell (activity.machine.stack.top - (depth + 1)) ∈ chain.current.operands := by
  have hview := htracked.mirrors.view
  refine (Stack.cell_of_getElem? ?_).symm ▸ List.getElem_mem hdepth
  rw [show activity.machine.stack.contents = chain.floor ++ chain.current.operands.reverse from hview.contents,
    hview.top_eq_operands, List.getElem?_append_right (by omega), List.getElem?_reverse (by omega),
    show chain.current.operands.length - 1 -
      (chain.floor.length + chain.current.operands.length - (depth + 1) - chain.floor.length) = depth by omega,
    List.getElem?_eq_getElem hdepth]

/-- After an instruction, whether it fails or not, the machine shows a valid world. -/
theorem exists_shows_after (htracked : Tracked limit registry known activity chain calls) :
    ∃ world : World, (Execution.step.after activity).machine.Shows world ∧ world.Valid registry known := by
  obtain ⟨instruction, progress, -, -, hvalid, hcorresponds⟩ := htracked.step
  have hends : ∀ {final : Activity} {below : List Word} {world : World} {constants : ConstantTable},
      EndsAt limit final below world constants → final.machine.Shows world := by
    rintro final below world constants ⟨snapshot, above, hfinal, rfl, -, -, -⟩
    exact hfinal.rests.shows
  unfold Execution.after
  cases progress with
  | next nextCalls =>
    rcases hcorresponds with ⟨after, later, hresult, hlater, -⟩ | ⟨final, hresult, hfinal, -⟩
    · rw [hresult]
      exact ⟨_, hlater.realizes.rests.shows, hvalid.world⟩
    · rw [hresult]
      exact ⟨_, hends hfinal, hvalid.world⟩
  | finished value world constants =>
    obtain ⟨final, frame, offset, hresult, -, hfinal⟩ := hcorresponds
    rw [hresult]
    exact ⟨world, hfinal.rests.shows, hvalid.1⟩
  | failed fault world constants =>
    obtain ⟨final, hresult, hfinal⟩ := hcorresponds
    rw [hresult]
    exact ⟨world, hends hfinal, hvalid.1⟩

/-- The change that comes with an instruction is one that the machine can make. -/
theorem suits_change (htracked : Tracked limit registry known activity chain calls)
    {rows : List HeapRow} (hshaped : HeapRow.Shaped activity.machine.constants rows)
    (hcontents : activity.machine.heap.contents = rows.flatMap HeapRow.words) {change : HeapChange}
    (hchange : activity.change? = some change) : HeapChange.Suits activity.machine rows change := by
  obtain ⟨instruction, operation, hinstruction, hresolved, -, hpops, -⟩ := htracked.exists_instruction
  have hoperands := htracked.mirrors.current.operands.length_eq
  have hconstants : activity.machine.constants = calls.constants := htracked.mirrors.realizes.constants
  have hlive : ∀ word ∈ chain.current.operands, activity.machine.heap.Leads activity.machine.constants rows word :=
    fun word hword ↦ htracked.leads_of_mem_live hshaped hcontents
      (List.mem_flatMap.mpr ⟨chain.current, List.mem_cons_self, List.mem_append_right _ hword⟩)
  unfold Activity.change? at hchange
  rw [hinstruction] at hchange
  cases instruction
  case new header =>
    dsimp only [Activity.making?] at hchange
    split at hchange
    case h_1 layout hlayout =>
      split_ifs at hchange
      cases hchange
      have hheader := ConstantTable.constant?_of_decode hlayout
      -- the operation that the calls carry out has the same class
      obtain ⟨shape, hshape, rfl⟩ := Option.map_eq_some_iff.mp hresolved
      rw [ConstantTable.layout?_eq_some_iff, ← hconstants, hheader] at hshape
      cases hshape
      have htopmost := htracked.topmost_eq (hoperands ▸ hpops)
      refine .make hheader (Stack.length_topmost _ _) fun word hword ↦ hlive word ?_
      rw [show activity.machine.stack.topmost layout.fieldCount = _ from htopmost] at hword
      exact List.mem_of_mem_take (List.mem_reverse.mp hword)
    case h_2 => cases hchange
  case put name =>
    dsimp only [Activity.assigning?] at hchange
    split at hchange
    case h_1 field hfield =>
      split_ifs at hchange with hboth
      split at hchange
      case h_1 object hobject =>
        obtain ⟨slot, hslot, hsame⟩ := Option.map_eq_some_iff.mp hchange
        cases hsame
        obtain ⟨shown, -, rfl⟩ := Option.map_eq_some_iff.mp hresolved
        have htwo : 2 ≤ chain.current.operands.length := hoperands ▸ hpops
        have hword := hlive _ (htracked.cell_mem_operands (Nat.lt_of_lt_of_le Nat.zero_lt_two htwo))
        have hreceiver := hlive _ (htracked.cell_mem_operands htwo)
        obtain ⟨index, hindex⟩ := Option.isSome_iff_exists.mp hboth.2
        obtain ⟨row, layout, hrow, hheader, hdecoded⟩ := hreceiver.decode_eq hindex
        cases hobject.symm.trans hdecoded
        exact .assign hrow hheader hslot hword
      case h_2 => cases hchange
    case h_2 => cases hchange
  all_goals cases hchange

variable {changes : List HeapChange} {live : List Word}

/-- A running machine that remembers some changes has live words that lead to the objects. -/
theorem remembers_live (htracked : Tracked limit registry known activity chain calls)
    (hremembers : activity.machine.Remembers changes live) : activity.machine.Remembers changes chain.live :=
  ⟨hremembers.splits, fun _ hword ↦
    htracked.leads_of_mem_live hremembers.splits.shaped hremembers.splits.contents hword,
    hremembers.globals, hremembers.fields⟩

/-- An instruction, whether it fails or not, adds the change that comes with it. -/
theorem remembers_step (htracked : Tracked limit registry known activity chain calls)
    (hremembers : activity.machine.Remembers changes live) :
    (Execution.step.after activity).machine.Remembers (changes ++ activity.change?.toList) live := by
  obtain ⟨world, hshows, hvalid⟩ := htracked.exists_shows_after
  have happlies := activity.applies_step
  exact hremembers.apply (fun _ hchange ↦
    htracked.suits_change hremembers.splits.shaped hremembers.splits.contents hchange)
    happlies.contents happlies.constants hshows hvalid

/-- At every point of a run, the machine remembers the changes of the instructions up to there. -/
theorem remembers_of_reaches (htracked : Tracked limit registry known activity chain calls)
    (hremembers : activity.machine.Remembers changes live) {reached : Activity}
    (hreaches : activity.Reaches reached) :
    ∃ steps : Nat, reached.machine.Remembers (changes ++ activity.changes steps) live ∧
      activity.changes (steps + 1) = activity.changes steps ++ reached.change?.toList := by
  induction hreaches using Relation.ReflTransGen.head_induction_on generalizing chain calls changes with
  | refl =>
    exact ⟨0, (List.append_nil changes).symm ▸ hremembers, reached.changes_one⟩
  | head hcontinues _ ih =>
    obtain ⟨-, later, nextCalls, -, hlater, -⟩ := htracked.of_continues hcontinues
    have hstep := htracked.remembers_step hremembers
    rw [Execution.after, show Execution.step _ = _ from hcontinues] at hstep
    obtain ⟨steps, hreached, hmore⟩ := ih hlater hstep
    refine ⟨steps + 1, ?_, ?_⟩
    · rw [Activity.changes_of_continues hcontinues, ← List.append_assoc]
      exact hreached
    · rw [Activity.changes_of_continues hcontinues, Activity.changes_of_continues hcontinues, hmore,
        List.append_assoc]

/-- At the end of a run, the machine remembers the changes of all its instructions. -/
theorem remembers_run (htracked : Tracked limit registry known activity chain calls)
    (hremembers : activity.machine.Remembers changes live) {steps : Nat} {outcome : CallOutcome}
    (hrun : activity.run steps = some outcome) :
    outcome.2.Remembers (changes ++ activity.changes steps) live := by
  induction steps generalizing activity chain calls changes with
  | zero => cases hrun
  | succ steps ih =>
    have hstep := htracked.remembers_step hremembers
    unfold Activity.run at hrun
    unfold Activity.changes
    unfold Execution.after at hstep
    dsimp only at hrun
    cases hresult : Execution.step activity with
    | error fault next =>
      rw [hresult] at hrun hstep
      cases hrun
      rw [List.append_nil]
      exact hstep
    | ok value next =>
      rw [hresult] at hrun hstep
      cases value with
      | some found =>
        cases hrun
        rw [List.append_nil]
        exact hstep
      | none =>
        obtain ⟨-, later, nextCalls, -, hlater, -⟩ := htracked.of_continues hresult
        rw [← List.append_assoc]
        exact ih hlater hstep hrun

end Tracked

end ScriptMachine
