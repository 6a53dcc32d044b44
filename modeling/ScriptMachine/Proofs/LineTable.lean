import Mathlib.Data.List.Chain
import Mathlib.Data.List.Induction
import ScriptMachine.Proofs.Lowered
import ScriptMachine.Proofs.Operation

/-!
# Lines of instructions

The line table of a code unit has an entry only where the line changes, and `CodeUnit.lineAt` finds the entry for an
offset by halving the table. `CodeUnit.lineAt_eq_last_reaching` says that this is the last of all entries that reach
the offset, where the offsets of the table increase. Which lines instructions have and where they start is said by
`LineMark`s; a table that records them one after the other is an exact record of them (`LineMark.Ordered.records`), and
finds the line of the last mark up to an offset. So in assembled code the line at the start of an instruction is that of
its emission (`Fragment.lineAt_assemble`).

`CodeUnit.startOf?` counts the instructions of a code unit. In assembled code the instructions are those of the
emissions, one after the other (`Fragment.exists_split`).
-/

set_option autoImplicit false
set_option relaxedAutoImplicit false

namespace ScriptMachine

/-! ### Halving -/

/-- Exactly the first entries of a line table reach an offset. -/
def LineEntry.ReachUpTo (lines : Array LineEntry) (offset count : Nat) : Prop :=
  ∀ (position : Nat) (entry : LineEntry), lines[position]? = some entry →
    (entry.reaches offset = true ↔ position < count)

/-- Halving ends with the last entry that reaches the offset, if there is one among those that it began with. -/
theorem narrowLines_bounds {lines : Array LineEntry} {offset count : Nat}
    (hreach : LineEntry.ReachUpTo lines offset count) (halvings : Nat) {base size : Nat}
    (henough : size ≤ halvings + 1) (hinside : base + size ≤ lines.size) (hbase : base = 0 ∨ base < count)
    (hcount : count ≤ base + size) :
    (narrowLines lines offset halvings base size = 0 ∨ narrowLines lines offset halvings base size < count) ∧
      count ≤ narrowLines lines offset halvings base size + 1 := by
  induction halvings generalizing base size with
  | zero => exact ⟨hbase, by rw [narrowLines]; omega⟩
  | succ halvings ih =>
    rw [narrowLines]
    split_ifs with hsmall
    · exact ⟨hbase, by omega⟩
    · have hmiddle : base + size / 2 < lines.size := by omega
      have hfound := hreach (base + size / 2) _ (Array.getElem?_eq_getElem hmiddle)
      dsimp only
      rw [Array.getD_eq_getD_getElem?, Array.getElem?_eq_getElem hmiddle, Option.getD_some]
      split_ifs with hreaches
      · exact ih (by omega) (by omega) (Or.inr (hfound.mp hreaches)) (by omega)
      · have hpast := mt hfound.mpr hreaches
        exact ih (by omega) (by omega) hbase (by omega)

/-- The line at an offset is that of the last entry that reaches it. -/
theorem CodeUnit.lineAt_eq {unit : CodeUnit} {offset position : Nat} {entry : LineEntry}
    (hreach : LineEntry.ReachUpTo unit.lines offset (position + 1)) (hentry : unit.lines[position]? = some entry) :
    unit.lineAt offset = entry.line := by
  have hinside := (Array.getElem?_eq_some_iff.mp hentry).1
  have hbounds := narrowLines_bounds hreach unit.lines.size (Nat.le_succ _) (Nat.le_of_eq (Nat.zero_add _))
    (Or.inl rfl) (by omega)
  have hlast : narrowLines unit.lines offset unit.lines.size 0 unit.lines.size = position := by omega
  unfold lineAt
  rw [hlast]
  dsimp only
  rw [hentry]
  dsimp only
  rw [if_pos ((hreach position entry hentry).mpr (Nat.lt_succ_self _))]

/-- Where no entry reaches the offset, the line is zero. -/
theorem CodeUnit.lineAt_eq_zero {unit : CodeUnit} {offset : Nat}
    (hreach : LineEntry.ReachUpTo unit.lines offset 0) : unit.lineAt offset = 0 := by
  have hbounds := narrowLines_bounds hreach unit.lines.size (Nat.le_succ _) (Nat.le_of_eq (Nat.zero_add _))
    (Or.inl rfl) (Nat.zero_le _)
  have hfirst : narrowLines unit.lines offset unit.lines.size 0 unit.lines.size = 0 := by omega
  unfold lineAt
  rw [hfirst]
  dsimp only
  cases hentry : unit.lines[0]? with
  | none => rfl
  | some entry =>
    dsimp only
    rw [if_neg (fun hreaches ↦ Nat.not_lt_zero _ ((hreach 0 entry hentry).mp hreaches)), if_pos rfl]

/-- Where offsets increase, the entries that reach an offset come before those that do not. -/
theorem LineEntry.exists_reaching {entries : List LineEntry}
    (hincreasing : entries.Pairwise fun earlier later ↦ earlier.offset < later.offset) (offset : Nat) :
    ∃ reaching later : List LineEntry, entries = reaching ++ later ∧
      (∀ entry ∈ reaching, entry.reaches offset = true) ∧ ∀ entry ∈ later, entry.reaches offset = false := by
  induction entries with
  | nil => exact ⟨[], [], rfl, List.forall_mem_nil _, List.forall_mem_nil _⟩
  | cons entry rest ih =>
    obtain ⟨hbehind, hrest⟩ := List.pairwise_cons.mp hincreasing
    obtain ⟨reaching, later, rfl, hreaching, hlater⟩ := ih hrest
    cases hentry : entry.reaches offset with
    | true => exact ⟨entry :: reaching, later, rfl, List.forall_mem_cons.mpr ⟨hentry, hreaching⟩, hlater⟩
    | false =>
      -- the entries behind one that lies past the offset lie past it as well
      refine ⟨[], _, rfl, List.forall_mem_nil _, List.forall_mem_cons.mpr ⟨hentry, fun other hother ↦ ?_⟩⟩
      have hless := UInt32.lt_iff_toNat_lt.mp (hbehind other hother)
      have hpast := of_decide_eq_false hentry
      exact decide_eq_false (by omega)

/-- In a table whose offsets increase, the line at an offset is that of the last of all entries that reach it. -/
theorem CodeUnit.lineAt_eq_last_reaching {unit : CodeUnit}
    (hincreasing : unit.lines.toList.Pairwise fun earlier later ↦ earlier.offset < later.offset) (offset : Nat) :
    unit.lineAt offset =
      ((unit.lines.toList.filter fun entry ↦ entry.reaches offset).getLast?.map LineEntry.line).getD 0 := by
  obtain ⟨reaching, later, hsplit, hreaching, hlater⟩ := LineEntry.exists_reaching hincreasing offset
  have hreach : LineEntry.ReachUpTo unit.lines offset reaching.length := by
    intro position entry hentry
    rw [← Array.getElem?_toList, hsplit] at hentry
    by_cases hposition : position < reaching.length
    · rw [List.getElem?_append_left hposition] at hentry
      exact iff_of_true (hreaching entry (List.mem_of_getElem? hentry)) hposition
    · rw [List.getElem?_append_right (Nat.le_of_not_lt hposition)] at hentry
      exact iff_of_false (Bool.eq_false_iff.mp (hlater entry (List.mem_of_getElem? hentry))) hposition
  rw [hsplit, List.filter_append, List.filter_eq_self.mpr hreaching,
    List.filter_eq_nil_iff.mpr fun entry hentry ↦ Bool.eq_false_iff.mp (hlater entry hentry), List.append_nil]
  rcases List.eq_nil_or_concat' reaching with rfl | ⟨front, last, rfl⟩
  · exact lineAt_eq_zero hreach
  · rw [List.length_append, List.length_singleton] at hreach
    rw [List.getLast?_concat]
    have hlast : unit.lines[front.length]? = some last := by
      rw [← Array.getElem?_toList, hsplit, List.append_assoc, List.getElem?_append_right (Nat.le_refl _), Nat.sub_self]
      rfl
    exact lineAt_eq hreach hlast

/-! ### Recording -/

/-- Where an instruction starts, and its line. -/
structure LineMark where
  offset : Nat
  line : UInt32

namespace LineMark

/-- The line that the last of the marks up to an offset gives, and zero where there is none. -/
def lineUpTo (marks : List LineMark) (offset : Nat) : UInt32 :=
  ((marks.filter fun mark ↦ mark.offset ≤ offset).getLast?.map LineMark.line).getD 0

/-- A mark gives the line from its offset on, up to the next one. -/
theorem lineUpTo_split {earlier later : List LineMark} {mark : LineMark} {offset : Nat} (hmark : mark.offset ≤ offset)
    (hlater : ∀ other ∈ later, offset < other.offset) : lineUpTo (earlier ++ mark :: later) offset = mark.line := by
  have hnone : later.filter (fun other ↦ other.offset ≤ offset) = [] :=
    List.filter_eq_nil_iff.mpr fun other hother ↦ by simpa using hlater other hother
  have hkept : (mark :: later).filter (fun other ↦ other.offset ≤ offset) = [mark] := by
    rw [List.filter_cons, if_pos (decide_eq_true hmark), hnone]
  rw [lineUpTo, List.filter_append, hkept, List.getLast?_concat]
  rfl

/-- Marks follow one another, and their offsets fit into words. -/
structure Ordered (marks : List LineMark) : Prop where
  increasing : marks.Pairwise fun earlier later ↦ earlier.offset < later.offset
  fits : ∀ mark ∈ marks, mark.offset < 4294967296

/-- The marks before the last one are ordered, and lie before it. -/
theorem Ordered.concat {marks : List LineMark} {last : LineMark} (hordered : Ordered (marks ++ [last])) :
    Ordered marks ∧ (∀ mark ∈ marks, mark.offset < last.offset) ∧ last.offset < 4294967296 := by
  obtain ⟨hbefore, -, hbelow⟩ := List.pairwise_append.mp hordered.increasing
  refine ⟨⟨hbefore, fun mark hmark ↦ ?_⟩, fun mark hmark ↦ ?_, ?_⟩
  · exact hordered.fits mark (List.mem_append_left _ hmark)
  · exact hbelow mark hmark last (List.mem_singleton_self last)
  · exact hordered.fits last (List.mem_append_right _ (List.mem_singleton_self last))

/-- The line table for marks that are recorded one after the other. -/
def table (marks : List LineMark) : Array LineEntry :=
  marks.foldl (fun lines mark ↦ CodeBuffer.recordLine lines mark.offset mark.line) #[]

/-- One mark more is recorded behind the others. -/
theorem table_concat (marks : List LineMark) (last : LineMark) :
    table (marks ++ [last]) = CodeBuffer.recordLine (table marks) last.offset last.line := by
  rw [table, List.foldl_append]
  rfl

/-- A line table is an exact record of marks: its offsets increase, its line changes with every entry, every entry is
at a mark, and the last entry up to an offset has the line of the last mark up to it. -/
structure Records (lines : Array LineEntry) (marks : List LineMark) : Prop where
  increasing : lines.toList.Pairwise fun earlier later ↦ earlier.offset < later.offset
  changing : lines.toList.IsChain fun entry next ↦ entry.line ≠ next.line
  marked : ∀ entry ∈ lines.toList, ∃ mark ∈ marks, mark.offset = entry.offset.toNat
  last : ∀ offset : Nat, (lines.toList.filter fun entry ↦ entry.reaches offset).getLast?.map LineEntry.line =
    (marks.filter fun mark ↦ mark.offset ≤ offset).getLast?.map LineMark.line

section Recording

variable {lines : Array LineEntry} {marks : List LineMark} {last : LineMark}

/-- The entries of an exact record lie before a mark behind the others. -/
theorem Records.before (hrecords : Records lines marks) (hbelow : ∀ mark ∈ marks, mark.offset < last.offset)
    {entry : LineEntry} (hentry : entry ∈ lines.toList) : entry.offset.toNat < last.offset := by
  obtain ⟨mark, hmark, hoffset⟩ := hrecords.marked entry hentry
  exact hoffset ▸ hbelow mark hmark

/-- From the last of the marks on, its line is the one that the marks give. -/
theorem last_reaching {offset : Nat} (hoffset : last.offset ≤ offset) :
    ((marks ++ [last]).filter fun mark ↦ mark.offset ≤ offset).getLast?.map LineMark.line = some last.line := by
  rw [List.filter_append, List.filter_cons, if_pos (decide_eq_true hoffset), List.filter_nil, List.getLast?_concat]
  rfl

/-- Before the last of the marks, the others give the line. -/
theorem filter_before {offset : Nat} (hoffset : offset < last.offset) :
    ((marks ++ [last]).filter fun mark ↦ mark.offset ≤ offset) = marks.filter fun mark ↦ mark.offset ≤ offset := by
  rw [List.filter_append, List.filter_cons, if_neg (by simpa using hoffset), List.filter_nil, List.append_nil]

/-- A record stays exact without an entry for a mark whose line is that of the last entry. -/
theorem Records.keep (hrecords : Records lines marks) (hbelow : ∀ mark ∈ marks, mark.offset < last.offset)
    (hline : lines.back?.map LineEntry.line = some last.line) : Records lines (marks ++ [last]) := by
  refine ⟨hrecords.increasing, hrecords.changing, fun entry hentry ↦ ?_, fun offset ↦ ?_⟩
  · obtain ⟨mark, hmark, hoffset⟩ := hrecords.marked entry hentry
    exact ⟨mark, List.mem_append_left _ hmark, hoffset⟩
  rcases Nat.lt_or_ge offset last.offset with hpast | hreached
  · rw [hrecords.last, filter_before hpast]
  · have hall : ∀ entry ∈ lines.toList, entry.reaches offset = true := fun entry hentry ↦
      decide_eq_true (Nat.le_of_lt (Nat.lt_of_lt_of_le (hrecords.before hbelow hentry) hreached))
    rw [List.filter_eq_self.mpr hall, last_reaching hreached, ← hline, Array.getLast?_toList]

/-- A record stays exact with an entry for a mark whose line differs from that of the last entry. -/
theorem Records.push (hrecords : Records lines marks) (hbelow : ∀ mark ∈ marks, mark.offset < last.offset)
    (hfits : last.offset < 4294967296) (hline : lines.back?.map LineEntry.line ≠ some last.line) :
    Records (lines.push ⟨UInt32.ofNat last.offset, last.line⟩) (marks ++ [last]) := by
  have hoffset : (UInt32.ofNat last.offset).toNat = last.offset := UInt32.toNat_ofNat_of_lt' hfits
  have hentries : (lines.push ⟨UInt32.ofNat last.offset, last.line⟩).toList =
    lines.toList ++ [⟨UInt32.ofNat last.offset, last.line⟩] := Array.toList_push
  constructor
  case increasing =>
    rw [hentries, List.pairwise_append]
    refine ⟨hrecords.increasing, List.pairwise_singleton _ _, fun entry hentry other hother ↦ ?_⟩
    obtain rfl := List.mem_singleton.mp hother
    refine UInt32.lt_iff_toNat_lt.mpr ?_
    rw [hoffset]
    exact hrecords.before hbelow hentry
  case changing =>
    rw [hentries, List.isChain_append]
    refine ⟨hrecords.changing, List.IsChain.singleton _, fun entry hentry other hother ↦ ?_⟩
    obtain rfl := Option.some.inj hother
    intro hsame
    rw [Option.mem_def, Array.getLast?_toList] at hentry
    exact hline (by rw [hentry, Option.map_some, hsame])
  case marked =>
    intro entry hentry
    rw [hentries, List.mem_append, List.mem_singleton] at hentry
    rcases hentry with hentry | rfl
    · obtain ⟨mark, hmark, hsame⟩ := hrecords.marked entry hentry
      exact ⟨mark, List.mem_append_left _ hmark, hsame⟩
    · exact ⟨last, List.mem_append_right _ (List.mem_singleton_self last), hoffset.symm⟩
  case last =>
    intro offset
    rw [hentries, List.filter_append]
    rcases Nat.lt_or_ge offset last.offset with hpast | hreached
    · have hnot : ¬(⟨UInt32.ofNat last.offset, last.line⟩ : LineEntry).reaches offset = true := by
        simpa [LineEntry.reaches, hoffset] using hpast
      rw [List.filter_cons, if_neg hnot, List.filter_nil, List.append_nil, hrecords.last, filter_before hpast]
    · have hnew : (⟨UInt32.ofNat last.offset, last.line⟩ : LineEntry).reaches offset = true :=
        decide_eq_true (hoffset.symm ▸ hreached)
      rw [List.filter_cons, if_pos hnew, List.filter_nil, List.getLast?_concat, last_reaching hreached]
      rfl

end Recording

/-- Marks that are recorded in their order are recorded exactly. -/
theorem Ordered.records {marks : List LineMark} (hordered : Ordered marks) : Records (table marks) marks := by
  induction marks using List.reverseRecOn with
  | nil => exact ⟨List.Pairwise.nil, List.IsChain.nil, List.forall_mem_nil _, fun _ ↦ rfl⟩
  | append_singleton marks last ih =>
    obtain ⟨hfront, hbelow, hfits⟩ := hordered.concat
    rw [table_concat, CodeBuffer.recordLine]
    split_ifs with hline
    · exact (ih hfront).keep hbelow hline
    · exact (ih hfront).push hbelow hfits hline

/-- The line at an offset is that of the last mark up to it. -/
theorem Ordered.lineAt_eq {marks : List LineMark} (hordered : Ordered marks) {unit : CodeUnit}
    (hlines : unit.lines = table marks) (offset : Nat) : unit.lineAt offset = lineUpTo marks offset := by
  have hrecords := hlines.symm ▸ hordered.records
  rw [CodeUnit.lineAt_eq_last_reaching hrecords.increasing, hrecords.last, lineUpTo]

end LineMark

/-! ### Tables of assembled code -/

/-- An emission takes up at least one word. -/
theorem Emission.size_pos (emission : Emission) : 0 < emission.size := by
  rw [← emission.size_place 0]
  exact Instruction.size_pos _

namespace Fragment

/-- The marks of the instructions of a fragment that stands at an offset. -/
def marksFrom (offset : Nat) : Fragment → List LineMark
  | [] => []
  | emission :: rest => ⟨offset, emission.line⟩ :: marksFrom (offset + emission.size) rest

/-- The marks of one fragment are followed by those of the next. -/
theorem marksFrom_append (first second : Fragment) (offset : Nat) :
    marksFrom offset (first ++ second) = marksFrom offset first ++ marksFrom (offset + size first) second := by
  induction first generalizing offset with
  | nil => rfl
  | cons emission rest ih => rw [List.cons_append, marksFrom, ih, marksFrom, List.cons_append, size, Nat.add_assoc]

/-- The marks of a fragment lie where it stands. -/
theorem mem_marksFrom {code : Fragment} {offset : Nat} {mark : LineMark} (hmark : mark ∈ marksFrom offset code) :
    offset ≤ mark.offset ∧ mark.offset < offset + size code := by
  induction code generalizing offset with
  | nil => exact absurd hmark List.not_mem_nil
  | cons emission rest ih =>
    have hpositive := emission.size_pos
    rw [size]
    rcases List.mem_cons.mp hmark with rfl | hrest
    · exact ⟨Nat.le_refl _, by dsimp only; omega⟩
    · have hbounds := ih hrest
      omega

/-- The marks of a fragment follow one another. -/
theorem pairwise_marksFrom (code : Fragment) (offset : Nat) :
    (marksFrom offset code).Pairwise fun earlier later ↦ earlier.offset < later.offset := by
  induction code generalizing offset with
  | nil => exact List.Pairwise.nil
  | cons emission rest ih =>
    refine List.pairwise_cons.mpr ⟨fun mark hmark ↦ ?_, ih _⟩
    exact Nat.lt_of_lt_of_le (Nat.lt_add_of_pos_right emission.size_pos) (mem_marksFrom hmark).1

/-- The line table of a fragment records the marks of its instructions. -/
theorem lines_eq_table (code : Fragment) :
    (code.foldl write CodeBuffer.empty).lines = LineMark.table (marksFrom 0 code) := by
  induction code using List.reverseRecOn with
  | nil => rfl
  | append_singleton code emission ih =>
    have hsize : (code.foldl write CodeBuffer.empty).code.size = size code := size_assemble code 0 0
    rw [List.foldl_append, List.foldl_cons, List.foldl_nil, lines_write, hsize, ih, marksFrom_append, Nat.zero_add,
      marksFrom, marksFrom, LineMark.table_concat]

/-- Where the instruction of an emission starts, the line is that of the emission. -/
theorem lineAt_assemble {before : Fragment} {emission : Emission} {after : Fragment}
    (hsize : size (before ++ emission :: after) ≤ 4294967296) (parameterCount slotCount : Nat) :
    (assemble (before ++ emission :: after) parameterCount slotCount).lineAt (size before) = emission.line := by
  have hordered : LineMark.Ordered (marksFrom 0 (before ++ emission :: after)) := by
    refine ⟨pairwise_marksFrom _ 0, fun mark hmark ↦ ?_⟩
    have hinside := (mem_marksFrom hmark).2
    omega
  rw [hordered.lineAt_eq (lines_eq_table _), marksFrom_append, Nat.zero_add, marksFrom]
  refine LineMark.lineUpTo_split (Nat.le_refl _) fun other hother ↦ ?_
  exact Nat.lt_of_lt_of_le (Nat.lt_add_of_pos_right emission.size_pos) (mem_marksFrom hother).1

end Fragment

/-! ### Counting instructions -/

namespace CodeUnit

/-- The offset behind a number of instructions, of which the first one starts at a given offset. -/
def startFrom (unit : CodeUnit) : (offset number : Nat) → Option Nat
  | offset, 0 => some offset
  | offset, number + 1 =>
    match unit.instructionAt offset with
    | .ok instruction => startFrom unit (offset + instruction.size) number
    | .error _ => none

/-- The offset at which the instruction with a number starts. -/
def startOf? (unit : CodeUnit) (number : Nat) : Option Nat :=
  unit.startFrom 0 number

variable {unit : CodeUnit} {offset : Nat}

/-- More instructions are counted from where some of them end. -/
theorem startFrom_add (offset number more : Nat) :
    unit.startFrom offset (number + more) =
      (unit.startFrom offset number).bind fun next ↦ unit.startFrom next more := by
  induction number generalizing offset with
  | zero => rw [Nat.zero_add]; rfl
  | succ number ih =>
    rw [Nat.succ_add, startFrom, startFrom]
    cases unit.instructionAt offset with
    | ok instruction => exact ih _
    | error fault => rfl

/-- Behind an instruction starts the next one. -/
theorem startOf?_succ {number : Nat} {instruction : Instruction} (hstart : unit.startOf? number = some offset)
    (hinstruction : unit.instructionAt offset = .ok instruction) :
    unit.startOf? (number + 1) = some (offset + instruction.size) := by
  unfold startOf? at hstart ⊢
  rw [startFrom_add, hstart, Option.bind_some, startFrom, hinstruction]
  rfl

/-- The instructions of a fragment lie one behind the other where the fragment stands. -/
theorem HasAt.startFrom {before after : Fragment} (hcode : unit.HasAt offset (before ++ after)) :
    unit.startFrom offset before.length = some (offset + Fragment.size before) := by
  induction before generalizing offset with
  | nil => rfl
  | cons emission rest ih =>
    rw [List.cons_append] at hcode
    obtain ⟨hinstruction, hrest⟩ := hcode.cons
    rw [List.length_cons, CodeUnit.startFrom, hinstruction]
    dsimp only
    rw [Emission.size_place, ih hrest, Fragment.size, Nat.add_assoc]

end CodeUnit

namespace Fragment

variable {code : Fragment} {parameterCount slotCount number offset : Nat} {instruction : Instruction}

/-- Assembled code has an instruction for every emission, and behind the last one nothing can be read. -/
theorem lt_length_of_startOf? (hstart : (assemble code parameterCount slotCount).startOf? number = some offset)
    (hinstruction : (assemble code parameterCount slotCount).instructionAt offset = .ok instruction) :
    number < code.length := by
  have hbound : ∀ {other : Nat} {found : Instruction},
      (assemble code parameterCount slotCount).instructionAt other = .ok found → other < size code := by
    intro other found hfound
    have hinside := CodeUnit.add_size_le_of_instructionAt hfound
    have hpositive := found.size_pos
    rw [size_assemble] at hinside
    omega
  by_contra hmore
  obtain ⟨more, rfl⟩ := Nat.exists_eq_add_of_le (Nat.le_of_not_lt hmore)
  have hend := @CodeUnit.HasAt.startFrom _ _ code []
    (by rw [List.append_nil]; exact hasAt_assemble code parameterCount slotCount)
  rw [Nat.zero_add] at hend
  unfold CodeUnit.startOf? at hstart
  rw [CodeUnit.startFrom_add, hend, Option.bind_some] at hstart
  cases more with
  | zero =>
    obtain rfl : size code = offset := Option.some.inj hstart
    exact Nat.lt_irrefl _ (hbound hinstruction)
  | succ more =>
    rw [CodeUnit.startFrom] at hstart
    cases hread : (assemble code parameterCount slotCount).instructionAt (size code) with
    | ok found => exact Nat.lt_irrefl _ (hbound hread)
    | error fault =>
      rw [hread] at hstart
      cases hstart

/-- An instruction of assembled code with a number is that of the emission with this number. -/
theorem exists_split (hstart : (assemble code parameterCount slotCount).startOf? number = some offset)
    (hinstruction : (assemble code parameterCount slotCount).instructionAt offset = .ok instruction) :
    ∃ (before : Fragment) (emission : Emission) (after : Fragment), code = before ++ emission :: after ∧
      before.length = number ∧ offset = size before ∧ instruction = emission.place offset := by
  have hless := lt_length_of_startOf? hstart hinstruction
  have hsplit : code = code.take number ++ code[number] :: code.drop (number + 1) := by
    rw [List.getElem_cons_drop, List.take_append_drop]
  have hparts := hasAt_assemble code parameterCount slotCount
  nth_rewrite 2 [hsplit] at hparts
  have hfound := hparts.startFrom
  rw [List.length_take_of_le (Nat.le_of_lt hless), Nat.zero_add] at hfound
  obtain rfl : size (code.take number) = offset := Option.some.inj (hfound.symm.trans hstart)
  refine ⟨_, _, _, hsplit, List.length_take_of_le (Nat.le_of_lt hless), rfl, ?_⟩
  have hread := hparts.append.2.cons.1
  rw [Nat.zero_add] at hread
  exact Except.ok.inj (hinstruction.symm.trans hread)

end Fragment

end ScriptMachine
