import ScriptMachine.Proofs.Effects

/-!
# Chains of frames

While compiled code runs, the words in use on the stack are those from before the host entered and then
one frame after the other. A `Segment` is one frame taken apart, and a `FrameChain` puts the frames on top
of each other again: the word of the function, the variables, the three words of the activation record, and
the operands (`FrameChain.stacked`). `FrameChain.Moves` lists what one instruction can do to a chain.

`Mirrors` relates a running machine to calls in progress: the machine is the one of a chain, and frame by
frame the words of the chain hold the values of the calls.
-/

set_option autoImplicit false
set_option relaxedAutoImplicit false

namespace ScriptMachine

/-! ### Frames on the stack -/

/-- The words of one call in progress: its function, the offset at which it goes on, its variables in slot
order, and its operands, top first. -/
structure Segment where
  frame : Frame
  offset : Nat
  locals : List Word
  operands : List Word

/-- The words and the base from before the host entered, the running frame, and the frames of its callers,
innermost first. -/
structure FrameChain where
  entry : List Word
  hostBase : Nat
  current : Segment
  callers : List Segment

namespace FrameChain

/-- The offset that the record of a frame saves, given the frames below it. -/
def savedOffset : List Segment → Word
  | [] => hostReturn
  | caller :: _ => ⟨UInt32.ofNat caller.offset⟩

/-- The word of a function that the record of a frame saves. A frame that the host entered saves its
own. -/
def savedWord (segment : Segment) : List Segment → Word
  | [] => segment.frame.word
  | caller :: _ => caller.frame.word

mutual

/-- The words of some frames on top of the words from before. -/
def stacked (entry : List Word) (hostBase : Nat) : List Segment → List Word
  | [] => entry
  | segment :: callers =>
    stacked entry hostBase callers ++ segment.frame.word :: segment.locals ++
      [⟨UInt32.ofNat (baseOf entry hostBase callers)⟩, savedOffset callers, savedWord segment callers] ++
      segment.operands.reverse

/-- The base of the topmost one of some frames. -/
def baseOf (entry : List Word) (hostBase : Nat) : List Segment → Nat
  | [] => hostBase
  | _ :: callers => (stacked entry hostBase callers).length + 1

end

/-- The words in use. -/
def contents (chain : FrameChain) : List Word :=
  stacked chain.entry chain.hostBase (chain.current :: chain.callers)

/-- The base of the running frame. -/
def base (chain : FrameChain) : Nat :=
  baseOf chain.entry chain.hostBase (chain.current :: chain.callers)

/-- The words below the word of the running function. -/
def lower (chain : FrameChain) : List Word :=
  stacked chain.entry chain.hostBase chain.callers

/-- The record of the running frame. -/
def record (chain : FrameChain) : List Word :=
  [⟨UInt32.ofNat (baseOf chain.entry chain.hostBase chain.callers)⟩, savedOffset chain.callers,
    savedWord chain.current chain.callers]

/-- The words below the operands of the running frame. -/
def floor (chain : FrameChain) : List Word :=
  chain.lower ++ chain.current.frame.word :: chain.current.locals ++ chain.record

/-- The running machine whose stack is a chain. -/
def snapshot (chain : FrameChain) (world : World) (constants : ConstantTable) (limit : Nat) : Snapshot :=
  ⟨world, constants, limit, chain.contents, chain.base, chain.current.frame, chain.current.offset⟩

/-- The chain with the running frame at another offset. -/
def withOffset (chain : FrameChain) (offset : Nat) : FrameChain :=
  { chain with current := { chain.current with offset := offset } }

/-- The operands lie on top. -/
theorem contents_eq (chain : FrameChain) : chain.contents = chain.floor ++ chain.current.operands.reverse :=
  rfl

/-- The base counts the words below the variables. -/
theorem base_eq (chain : FrameChain) : chain.base = chain.lower.length + 1 :=
  rfl

/-- The base of a frame counts fewer words than there are up to its operands. -/
theorem baseOf_lt_length_stacked (entry : List Word) (hostBase : Nat) (segment : Segment)
    (callers : List Segment) :
    baseOf entry hostBase (segment :: callers) < (stacked entry hostBase (segment :: callers)).length := by
  rw [baseOf, stacked]
  simp only [List.length_append, List.length_cons]
  omega

/-- The words from before the host entered lie below all frames. -/
theorem exists_stacked_eq (entry : List Word) (hostBase : Nat) (segments : List Segment) :
    ∃ above : List Word, stacked entry hostBase segments = entry ++ above := by
  induction segments with
  | nil => exact ⟨[], (List.append_nil entry).symm⟩
  | cons segment callers ih =>
    obtain ⟨above, habove⟩ := ih
    unfold stacked
    rw [habove]
    simp only [List.append_assoc]
    exact ⟨_, rfl⟩

/-! ### What an instruction does to a chain -/

/-- What one instruction can do to a chain: it changes the running frame, or begins a call with the
receiver and the arguments on top of the word of a function, or returns with the topmost operand. -/
inductive Moves : FrameChain → FrameChain → Prop where
  | stays (chain : FrameChain) (offset : Nat) (locals operands : List Word)
      (hwidth : locals.length = chain.current.locals.length) :
      Moves chain
        { chain with current := ⟨chain.current.frame, offset, locals, operands⟩ }
  | calls (chain : FrameChain) (frame : Frame) (locals arguments rest : List Word) (receiver : Word)
      (hoperands : chain.current.operands = arguments ++ receiver :: frame.word :: rest) :
      Moves chain
        { chain with
          current := ⟨frame, 0, locals, []⟩
          callers := { chain.current with operands := rest } :: chain.callers }
  | returns (entry : List Word) (hostBase : Nat) (current caller : Segment) (callers : List Segment)
      (result : Word) (rest : List Word) (hoperands : current.operands = result :: rest) :
      Moves ⟨entry, hostBase, current, caller :: callers⟩
        ⟨entry, hostBase, { caller with operands := result :: caller.operands }, callers⟩

/-- The words from before the host entered stay what they are. -/
theorem Moves.entry_eq {chain later : FrameChain} (hmoves : chain.Moves later) :
    later.entry = chain.entry ∧ later.hostBase = chain.hostBase := by
  cases hmoves <;> exact ⟨rfl, rfl⟩

end FrameChain

/-! ### Frames that hold calls -/

/-- The words of a frame hold the variables and operands of a call, and its own word refers to its
function. -/
structure Segment.Holds (table : ConstantTable) (records : List Record) (segment : Segment)
    (level : Level) : Prop where
  routine : segment.frame.routine = level.routine
  word : table.constant? segment.frame.word = some (.function (.compiled segment.frame.routine))
  offset : segment.offset = level.offset
  width : segment.locals.length = segment.frame.routine.unit.slotCount
  locals : table.HoldsAll records segment.locals level.locals
  operands : table.HoldsAll records segment.operands level.operands

/-- A frame holds its call when constants and objects are added. -/
theorem Segment.Holds.mono {table larger : ConstantTable} {records later : List Record}
    (hextends : table.Extends larger) (hkeeps : Store.KeepsLayouts records later) {segment : Segment}
    {level : Level} (hholds : segment.Holds table records level) : segment.Holds larger later level :=
  ⟨hholds.routine, ConstantTable.constant?_mono hextends hholds.word, hholds.offset, hholds.width,
    hholds.locals.mono hextends hkeeps, hholds.operands.mono hextends hkeeps⟩

/-- The words that a call needs on the stack: its function, its variables, its record and its operands. -/
def Level.words (level : Level) : Nat :=
  1 + level.locals.length + recordSize + level.operands.length

/-- The words that some calls need on the stack. -/
def CallStack.words (calls : CallStack) : Nat :=
  ((calls.current :: calls.callers).map Level.words).sum

/-- Frames take up as many words as their calls need. -/
theorem FrameChain.length_stacked {table : ConstantTable} {records : List Record} (entry : List Word)
    (hostBase : Nat) {segments : List Segment} {levels : List Level}
    (hholds : List.Forall₂ (Segment.Holds table records) segments levels) :
    (stacked entry hostBase segments).length = entry.length + (levels.map Level.words).sum := by
  induction hholds with
  | nil => rfl
  | @cons segment level _ _ hsegment _ ih =>
    have hlocals := hsegment.locals.length_eq
    have hoperands := hsegment.operands.length_eq
    rw [stacked]
    simp only [List.length_append, List.length_cons, List.length_nil, List.length_reverse, ih,
      List.map_cons, List.sum_cons, Level.words, recordSize]
    omega

/-- Callers can be found again: the offsets at which they go on fit into a word, and none of them looks
like the one that ends the call of the host. -/
def Segment.Resumable (segment : Segment) : Prop :=
  segment.offset < 4294967295

/-- The offset of a caller that can be found again is read back from its word, and does not end the call of
the host. -/
theorem Segment.Resumable.offset_word {segment : Segment} (hresumable : segment.Resumable) :
    (UInt32.ofNat segment.offset).toNat = segment.offset ∧
      (⟨UInt32.ofNat segment.offset⟩ : Word) ≠ hostReturn := by
  have hread : (UInt32.ofNat segment.offset).toNat = segment.offset :=
    UInt32.toNat_ofNat_of_lt' (Nat.lt_trans hresumable (by decide))
  refine ⟨hread, fun hsame ↦ ?_⟩
  have hbits := congrArg (fun word : Word ↦ word.bits.toNat) hsame
  simp only [hread, hostReturn, UInt32.reduceToNat] at hbits
  rw [Segment.Resumable, hbits] at hresumable
  exact Nat.lt_irrefl _ hresumable

/-- A running machine has the frames of some calls in progress on its stack. -/
structure Mirrors (limit : Nat) (activity : Activity) (chain : FrameChain) (calls : CallStack) :
    Prop where
  realizes : activity.Realizes (chain.snapshot calls.world calls.constants limit)
  current : chain.current.Holds calls.constants calls.world.store.records calls.current
  callers : List.Forall₂ (Segment.Holds calls.constants calls.world.store.records) chain.callers
    calls.callers
  resumable : ∀ segment ∈ chain.callers, segment.Resumable
  hostBase_lt : chain.hostBase < 4294967296

/-- The stack of a running machine holds the words that its calls need. -/
theorem Mirrors.length_contents {limit : Nat} {activity : Activity} {chain : FrameChain}
    {calls : CallStack} (hmirrors : Mirrors limit activity chain calls) :
    chain.contents.length = chain.entry.length + calls.words :=
  FrameChain.length_stacked _ _ (List.Forall₂.cons hmirrors.current hmirrors.callers)

/-- A running machine ended its call with some world and constants, and with some words still at the
bottom of its stack. -/
def EndsAt (limit : Nat) (activity : Activity) (below : List Word) (world : World)
    (constants : ConstantTable) : Prop :=
  ∃ (snapshot : Snapshot) (above : List Word), activity.Realizes snapshot ∧ snapshot.world = world ∧
    snapshot.constants = constants ∧ snapshot.limit = limit ∧ snapshot.contents = below ++ above

/-- What the machine does is what the calls do, except that the stack may be full because the calls need
more words than its limit. However the call ends, the words below the running frame are still there. -/
def Corresponds (limit : Nat) (chain : FrameChain)
    (result : EStateM.Result Fault Activity (Option Value)) : Progress → Prop
  | .next calls =>
    (∃ (next : Activity) (later : FrameChain), result = .ok none next ∧
        Mirrors limit next later calls ∧ chain.Moves later) ∨
      ∃ final : Activity, result = .error (.stackOverflow limit) final ∧
        EndsAt limit final chain.lower calls.world calls.constants ∧
        limit < chain.entry.length + calls.words
  | .finished value world constants =>
    ∃ (final : Activity) (frame : Frame) (offset : Nat), result = .ok (some value) final ∧
      chain.callers = [] ∧
      final.Realizes ⟨world, constants, limit, chain.entry, chain.hostBase, frame, offset⟩
  | .failed fault world constants =>
    ∃ final : Activity, result = .error fault final ∧
      EndsAt limit final chain.lower world constants

end ScriptMachine
