import WordMachine.Assembler
import WordMachine.Proofs.Machine.AddressFaults
import WordMachine.Proofs.Machine.PlainStep

/-!
# Library calls in memories of different sizes

Two machines that differ in their memories alone, and hold the same words wherever both memories have a location, are
followed through one step. What is carried out alike in both leaves them alike (`sameOutcome_step`). A routine works on
an accumulator and on no other word, and every memory has the accumulators; but the number of a routine is resolved
like a location, so a call by name is carried out only in a memory that has a location of this number.
-/
namespace WordMachine

/-- The same words at the locations that both memories have. -/
def Memory.Agree (a b : Memory) : Prop :=
  ∀ location, location < a.size → location < b.size → a.get location = b.get location

/-- A word that the name of a routine is assembled to, in some source. -/
def Routine.AssemblesTo (r : Routine) (w : Word) : Prop :=
  ∃ line s settings layout, Source.Line.IsParsed line ∧ line.content = some (.statement s) ∧ s.routine = some r ∧
    Encoding.statement settings layout s = .ok w

/-- The word of a routine's name is a call of the routine, without index register and star. -/
theorem Routine.AssemblesTo.plain {r : Routine} {w : Word} (assembled : r.AssemblesTo w) :
    ∃ i n, Instruction.decode w = .ok i ∧ i.Plain .extra n r.number := by
  obtain ⟨line, s, settings, layout, parsed, content, named, encoded⟩ := assembled
  obtain ⟨call, operand⟩ := (parsed.admitted _ content).2 r named
  obtain ⟨⟨address, column⟩, resolved, encoded⟩ := bind_eq_ok_iff.mp encoded
  obtain ⟨_, checked, encoded⟩ := bind_eq_ok_iff.mp encoded
  obtain ⟨i, drafted, encoded⟩ := bind_eq_ok_iff.mp encoded
  cases encoded
  rw [operand] at resolved
  cases resolved
  obtain ⟨rfl, -⟩ := checkField_eq_ok_iff.mp (mapError_eq_ok_iff.mp checked)
  have meaning : Says s r.number i := Encoding.says_of_check (mapError_eq_ok_iff.mp drafted)
  have direct : s.index? = none ∧ s.indirect = false := by
    simp [Source.Statement.index?, Source.Statement.indirect, operand]
  exact ⟨i, i.accumulator, Instruction.decode_encode i,
    call ▸ plain_of_says meaning meaning.accumulator.symm direct.1 direct.2⟩

namespace Memory

variable {a b : Memory}

theorem Agree.accumulator (agree : a.Agree b) (n : Fin 8) : a.accumulator n = b.accumulator n :=
  agree n.val (Nat.lt_of_lt_of_le n.isLt a.holds_accumulators) (Nat.lt_of_lt_of_le n.isLt b.holds_accumulators)

theorem Agree.accumulators (agree : a.Agree b) : a.accumulators = b.accumulators :=
  congrArg Vector.ofFn (funext agree.accumulator)

/-- A word that one of them has, at a location of the other. -/
theorem Agree.read {location : Int} {w : Word} (agree : a.Agree b) (read : a.read location = .ok w)
    (inside : location < b.size) : b.read location = .ok w := by
  obtain ⟨n, found, rfl⟩ := map_eq_ok_iff.mp read
  obtain ⟨rfl, here⟩ := check_eq_ok_iff.mp found
  rw [read_eq (by omega), Int.toNat_natCast, agree n here (by omega)]

theorem Agree.set (agree : a.Agree b) (location : Nat) (w : Word) : (a.set location w).Agree (b.set location w) := by
  intro other here there
  rw [size_set] at here there
  by_cases same : location = other
  · subst same
    rw [get_set_self here, get_set_self there]
  · rw [get_set_ne a same, get_set_ne b same, agree other here there]

end Memory

namespace Machine

abbrev withMemory (m : Machine) (memory : Memory) : Machine :=
  { m with memory }

/-- Results of a step that differ at most in the words of locations that only one of the memories has. -/
structure SameOutcome (a b : Machine × Option Trouble) : Prop where
  trouble : a.2 = b.2
  status : a.1.status = b.1.status
  registers : a.1.registers = b.1.registers
  printed : a.1.printed = b.1.printed
  steps : a.1.steps = b.1.steps
  supply : a.1.supply = b.1.supply
  trace : a.1.trace = b.1.trace
  memory : a.1.memory.Agree b.1.memory

section

variable {m : Machine} {other : Memory} {i : Instruction} {n : Fin 8} {r : Routine} {w : Word} {address : Nat}

/-! ## What is carried out alike -/

theorem registers_withMemory (agree : m.memory.Agree other) : m.registers = (m.withMemory other).registers := by
  simp only [registers, agree.accumulators]

/-- An effect does the same to both. -/
theorem sameOutcome_complete (agree : m.memory.Agree other) (name : String) (e : Effect) :
    SameOutcome (m.complete name e, none) ((m.withMemory other).complete name e, none) := by
  have memory : (m.apply e).memory.Agree ((m.withMemory other).apply e).memory := by
    show (e.write.elim m.memory fun entry => m.memory.set entry.1 entry.2).Agree
      (e.write.elim other fun entry => other.set entry.1 entry.2)
    cases e.write with
    | none => exact agree
    | some entry => exact agree.set entry.1 entry.2
  have after : (m.apply e).registers = ((m.withMemory other).apply e).registers := registers_withMemory memory
  constructor
  case trouble | status | printed | steps | supply => rfl
  case registers => exact after
  case trace => simp only [complete, after, registers_withMemory agree]
  case memory => exact memory

/-- So does a fault, whether it ends the run or not. -/
theorem sameOutcome_faultWith (agree : m.memory.Agree other) (cause : FaultCause) (name : Option String) :
    SameOutcome (m.faultWith cause name) ((m.withMemory other).faultWith cause name) := by
  unfold faultWith
  dsimp only
  split <;> exact ⟨rfl, rfl, registers_withMemory agree, rfl, rfl, rfl, rfl, agree⟩

/-- A machine that has ended refuses a step in either memory. -/
theorem sameOutcome_of_ended (agree : m.memory.Agree other) (ended : m.status.isTerminal = true) :
    SameOutcome m.step (m.withMemory other).step := by
  rw [step_of_ended ended, step_of_ended (m := m.withMemory other) ended]
  exact ⟨rfl, rfl, registers_withMemory agree, rfl, rfl, rfl, rfl, agree⟩

/-- A step has the same outcome in both if they fetch the same instruction and carry it out alike. -/
theorem sameOutcome_step (agree : m.memory.Agree other) (here : m.fetch = .ok i)
    (there : (m.withMemory other).fetch = .ok i) (executed : (m.withMemory other).execute i = m.execute i) :
    SameOutcome m.step (m.withMemory other).step := by
  cases live : m.status.isTerminal with
  | true => exact sameOutcome_of_ended agree live
  | false =>
    have agree' (supply : Supply) : (m.withSupply supply).memory.Agree other := agree
    cases mine : m.execute i with
    | mk supply result =>
      rw [mine] at executed
      cases result with
      | ok e =>
        rw [step_of_completed live here mine, step_of_completed (m := m.withMemory other) live there executed]
        exact sameOutcome_complete (agree' supply) _ e
      | error obstacle =>
        cases obstacle with
        | fault cause =>
          rw [step_of_faulted live here mine, step_of_faulted (m := m.withMemory other) live there executed]
          exact sameOutcome_faultWith (agree' supply) cause _
        | unreadable word =>
          rw [step_of_unreadable live here mine, step_of_unreadable (m := m.withMemory other) live there executed]
          exact ⟨rfl, rfl, registers_withMemory agree, rfl, rfl, rfl, rfl, agree⟩

/-! ## Routines -/

/-- Of the memory a routine looks at its accumulator alone. -/
theorem callRoutine_withMemory (same : m.memory.accumulator n = other.accumulator n) (r : Routine) :
    (m.withMemory other).callRoutine n r = m.callRoutine n r := by
  cases r <;> simp only [callRoutine, plainRoutine, applyFunction, replaceNumber, printAccumulator, printCaption,
    same] <;> rfl

/-- The address of a plain instruction that lies outside memory. -/
theorem resolve_of_plain_outside {mnemonic : Mnemonic} (plain : i.Plain mnemonic n address)
    (outside : m.memory.size ≤ address) : (Address.ofInstruction i).resolve m.memory m.index.toList =
      .error (.outside address m.memory.size) := by
  have beyond : ¬ (0 ≤ (address : Int) ∧ (address : Int) < m.memory.size) := by omega
  have near : address < 2048 := by
    have page := i.page.isLt
    have offset := i.offset.isLt
    rw [← plain.address, Instruction.address, pageSize]
    omega
  rw [Address.resolve, base_of_plain plain]
  show (m.memory.check (address : Int) >>= _) = _
  rw [Memory.check_of_outside beyond (m.memory.shows_of_natAbs_lt (by omega))]
  rfl

theorem usesAddress_extra : Mnemonic.extra.usesAddress = true := by
  decide

/-- A call by name of a routine whose number the memory has no location for is refused for its address. -/
theorem faultsTo_of_plain_outside (plain : i.Plain .extra n r.number) (live : m.status.isTerminal = false)
    (fetched : m.fetch = .ok i) (outside : m.memory.size ≤ r.number) :
    ∃ next f, m.FaultsTo next f ∧ f.cause = .address (.outside r.number m.memory.size) :=
  faultsTo_of_unresolved live fetched (plain.mnemonic ▸ usesAddress_extra) (resolve_of_plain_outside plain outside) rfl

/-- Where the memory has a location of its number, no call by name is refused for its address. -/
theorem kind_ne_invalidAddress_of_plain (plain : i.Plain .extra n r.number) (fetched : m.fetch = .ok i)
    (inside : r.number < m.memory.size) {next : Machine} {f : Fault} (result : m.step = (next, some (.fault f))) :
    f.cause.kind ≠ .invalidAddress := by
  intro kind
  rcases fails_of_step result with unfetched | ⟨k, again, fails⟩
  · cases fetched.symm.trans unfetched
  · cases fetched.symm.trans again
    obtain ⟨-, e, unresolved⟩ := fails.misaddressed_of_kind kind
    have resolved := effectiveAddress_of_plain plain inside
    rw [effectiveAddress, unresolved] at resolved
    cases resolved

/-- A call by name of the routine that stops the program stops it, if the memory has a location of its number. -/
theorem step_of_stop (plain : i.Plain .extra n Routine.stop.number) (live : m.status.isTerminal = false)
    (fetched : m.fetch = .ok i) (inside : Routine.stop.number < m.memory.size) :
    m.step.2 = none ∧ m.step.1.status = .halted (some m.counter) := by
  have executed : m.execute i = (m.supply, .ok m.stopping) := execute_call plain inside
  rw [step_of_completed live fetched executed]
  exact ⟨rfl, rfl⟩

/-! ## Calls by name -/

/-- Full memory has a location for the number of every routine. -/
theorem number_lt_fullMemorySize (r : Routine) : r.number < fullMemorySize := by
  cases r <;> decide

/-- A machine stops where the name of the routine that stops it stands, in a memory of more than ten words and in no
other. -/
theorem stops_iff_of_assemblesTo (assembled : Routine.stop.AssemblesTo w)
    (stands : m.memory.read m.counter = .ok w) (live : m.status.isTerminal = false) :
    m.step.2 = none ∧ m.step.1.status = .halted (some m.counter) ↔ 10 < m.memory.size := by
  obtain ⟨i, n, decoded, plain⟩ := assembled.plain
  have here : m.fetch = .ok i := fetch_of_instructionAt ⟨w, stands, decoded⟩
  refine ⟨fun halts => ?_, step_of_stop plain live here⟩
  by_contra small
  obtain ⟨next, f, faults, -⟩ := faultsTo_of_plain_outside plain live here (Nat.le_of_not_lt small)
  rw [faults.1] at halts
  cases halts.1

/-- A call by name has the outcome that it has in a full memory if the memory has a location of the routine's number.
In a smaller memory the call is refused for its address, which the full memory never does, so a program stops only in
a memory of more than ten words. -/
theorem call_by_memory_size (assembled : r.AssemblesTo w) (stands : m.memory.read m.counter = .ok w) :
    (∀ full : Memory, full.size = fullMemorySize → m.counter < fullMemorySize → m.memory.Agree full →
      (r.number < m.memory.size ∨ m.status.isTerminal = true → SameOutcome m.step (m.withMemory full).step) ∧
      ∀ next f, (m.withMemory full).step = (next, some (.fault f)) → f.cause.kind ≠ .invalidAddress) ∧
    (m.status.isTerminal = false → m.memory.size ≤ r.number →
      ∃ next f, m.FaultsTo next f ∧ f.cause = .address (.outside r.number m.memory.size)) ∧
    (m.status.isTerminal = false → r = .stop →
      (m.step.2 = none ∧ m.step.1.status = .halted (some m.counter) ↔ 10 < m.memory.size)) := by
  obtain ⟨i, n, decoded, plain⟩ := assembled.plain
  have here : m.fetch = .ok i := fetch_of_instructionAt ⟨w, stands, decoded⟩
  refine ⟨fun full size shared agree => ?_, fun live outside => ?_, fun live stop => ?_⟩
  · have there : (m.withMemory full).fetch = .ok i :=
      fetch_of_instructionAt ⟨w, agree.read stands (size ▸ shared), decoded⟩
    have room : r.number < full.size := size ▸ number_lt_fullMemorySize r
    refine ⟨?_, fun next f => kind_ne_invalidAddress_of_plain plain there room⟩
    rintro (inside | ended)
    · refine sameOutcome_step agree here there ?_
      rw [execute_call plain inside, execute_call (m := m.withMemory full) plain room]
      exact callRoutine_withMemory (agree.accumulator n) r
    · exact sameOutcome_of_ended agree ended
  · exact faultsTo_of_plain_outside plain live here outside
  · subst stop
    exact stops_iff_of_assemblesTo assembled stands live

end

/-! ## A program that stops at once -/

/-- A memory holds the words of the program that was loaded into it, and zeros at all other locations. -/
theorem get_of_loadMemory {a : Assembly} {size : Int} {memory : Memory} (loaded : loadMemory a size = .ok memory)
    {location : Nat} (inside : location < memory.size) : memory.get location = (a.word? location).getD Word.zero := by
  obtain ⟨whole, fits⟩ := loadMemory_ok loaded
  have least : 8 ≤ memory.size := memory.holds_accumulators
  obtain ⟨again, same, -, reads⟩ := loadMemory_spec (by omega) fits
  obtain rfl := Except.ok.inj (same.symm.trans loaded)
  have read := reads location (by omega)
  rw [Memory.read_eq (by omega)] at read
  exact Except.ok.inj read

/-- Memories that one program was loaded into hold the same words, whatever their sizes. -/
theorem agree_of_loadMemory {a : Assembly} {here there : Int} {small large : Memory}
    (loaded : loadMemory a here = .ok small) (also : loadMemory a there = .ok large) : small.Agree large :=
  fun _ inside within => (get_of_loadMemory loaded inside).trans (get_of_loadMemory also within).symm

theorem loadMemory_of_load {a : Assembly} {size : Int} {supply : Supply} {traced : Bool} {m : Machine}
    (loaded : (load a size supply traced).toOption = some m) : loadMemory a size = .ok m.memory := by
  cases whole : loadMemory a size with
  | error e =>
    rw [load, whole] at loaded
    cases loaded
  | ok memory =>
    rw [load, whole] at loaded
    cases loaded
    rfl

/-- The machine of a program whose one line is the name of the routine that stops it, in a memory of some size. -/
def stopping? (size : Int) : Option Machine :=
  (assembleSource {} "STOP" "stop").value.toOption.bind fun a => (load a size {} false).toOption

/-- One program in two memories agrees on all locations that both have. -/
theorem agree_of_stopping {here there : Int} {small large : Machine} (loaded : stopping? here = some small)
    (also : stopping? there = some large) : small.memory.Agree large.memory := by
  unfold stopping? at loaded also
  obtain ⟨a, assembled, made⟩ := Option.bind_eq_some_iff.mp loaded
  obtain ⟨b, again, done⟩ := Option.bind_eq_some_iff.mp also
  obtain rfl := Option.some.inj (assembled.symm.trans again)
  exact agree_of_loadMemory (loadMemory_of_load made) (loadMemory_of_load done)

/-- The line that is the name alone assembles to this word. -/
theorem assemblesTo_stop : Routine.stop.AssemblesTo ⟨.instruction, 0o77100012⟩ :=
  ⟨⟨1, "STOP", none, none, some (.statement ⟨.extra, none, some (.address ⟨.location 10, none, false, 0⟩), some .stop⟩),
      none, "stop"⟩, _, {}, Layout.start {},
    Source.Line.isParsed_of_parse (show ((Source.Line.parse "STOP" "stop" 1).toOption.bind
      fun w => w.value.toOption) = some _ by decide +kernel), rfl, rfl, rfl⟩

/-- In three memories, the smallest of nine words, the program is about to stop. -/
theorem exists_stopping (size : Int) (listed : size ∈ ([9, 12, fullMemorySize] : List Int)) :
    ∃ m, stopping? size = some m ∧ m.memory.read m.counter = .ok ⟨.instruction, 0o77100012⟩ ∧ m.counter = 8 ∧
      m.status.isTerminal = false ∧ (m.memory.size : Int) = size := by
  have all : ∀ size ∈ ([9, 12, fullMemorySize] : List Int), ((stopping? size).map fun m =>
      (m.memory.get 8, m.counter, m.status.isTerminal, (m.memory.size : Int))) =
      some (⟨.instruction, 0o77100012⟩, 8, false, size) := by
    decide +kernel
  obtain ⟨m, loaded, seen⟩ := Option.map_eq_some_iff.mp (all size listed)
  simp only [Prod.mk.injEq] at seen
  obtain ⟨word, counter, live, same⟩ := seen
  have room : 8 < m.memory.size := by
    simp only [List.mem_cons, List.not_mem_nil, or_false, fullMemorySize] at listed
    omega
  refine ⟨m, loaded, ?_, counter, live, same⟩
  rw [counter, Memory.read_eq (by omega)]
  exact congrArg Except.ok word

/-- The program stops in twelve words as it does in a full memory. In nine words, which hold all of it, it does not. -/
theorem stopping_by_memory_size : ∃ twelve nine full,
    stopping? 12 = some twelve ∧ stopping? 9 = some nine ∧ stopping? fullMemorySize = some full ∧
    SameOutcome twelve.step (twelve.withMemory full.memory).step ∧
    twelve.step.1.status = .halted (some twelve.counter) ∧
    (∃ next f, nine.FaultsTo next f ∧ f.cause = .address (.outside 10 nine.memory.size)) ∧
    ¬ (nine.step.2 = none ∧ nine.step.1.status = .halted (some nine.counter)) := by
  obtain ⟨twelve, here, stands, counter, live, large⟩ := exists_stopping 12 (by decide)
  obtain ⟨nine, there, stands', counter', live', small⟩ := exists_stopping 9 (by decide)
  obtain ⟨full, whole, -, -, -, size⟩ := exists_stopping fullMemorySize (by decide)
  have inTwelve := call_by_memory_size assemblesTo_stop stands
  have inNine := call_by_memory_size assemblesTo_stop stands'
  have room : 10 < twelve.memory.size := by omega
  have tight : nine.memory.size ≤ 10 := by omega
  have alike := inTwelve.1 full.memory (Int.ofNat.inj size) (counter ▸ by decide) (agree_of_stopping here whole)
  exact ⟨twelve, nine, full, here, there, whole, alike.1 (.inl room), ((inTwelve.2.2 live rfl).mpr room).2,
    inNine.2.1 live' tight, fun halts => absurd ((inNine.2.2 live' rfl).mp halts) (by omega)⟩

/-- A memory of nine words takes the program and cannot stop it, as the number of the routine that stops it is taken
for a location. -/
theorem stop_refused_by_nineWords : ∃ nine full,
    stopping? 9 = some nine ∧ stopping? fullMemorySize = some full ∧ nine.memory.Agree full.memory ∧
    full.step.1.status = .halted (some 8) ∧
    nine.step.1.status = .faulted ⟨.address (.outside 10 9), 8, some "STOP", 0⟩ := by
  have refused : (stopping? 9).map (·.step.1.status) =
      some (.faulted ⟨.address (.outside 10 9), 8, some "STOP", 0⟩) := by
    decide +kernel
  have stopped : (stopping? fullMemorySize).map (·.step.1.status) = some (.halted (some 8)) := by
    decide +kernel
  obtain ⟨nine, here, refused⟩ := Option.map_eq_some_iff.mp refused
  obtain ⟨full, there, stopped⟩ := Option.map_eq_some_iff.mp stopped
  exact ⟨nine, full, here, there, agree_of_stopping here there, stopped, refused⟩

end Machine

end WordMachine
