import WordMachine.Proofs.Machine.Tracing

/-!
# The trace of a session

Whatever a traced machine is asked for, its records are a chain: the first one starts with the registers of the
loaded machine, each starts where the one before it ended, and the last one ends with the registers of now. A
step that faults or is broken off, and cancelling, add nothing and change no register, so the chain also holds
after them. What a record shows is read off the machines before and after its step, which `History` keeps.
-/
namespace WordMachine.Machine

/-- A completed step: the machine before it, its instruction, and the machine after it. -/
structure Moment where
  before : Machine
  instruction : Instruction
  after : Machine

def Moment.record (x : Moment) : TraceRecord :=
  recordOf x.before x.after x.instruction

/-- What steps and cancelling lead to, with the steps that were completed on the way. -/
inductive History (start : Machine) : List Moment → Machine → Prop where
  | start : History start [] start
  | completed {moments : List Moment} {m next : Machine} {i : Instruction} (before : History start moments m)
      (fetched : m.fetch = .ok i) (result : m.step = (next, none)) :
      History start (moments ++ [⟨m, i, next⟩]) next
  | uncompleted {moments : List Moment} {m next : Machine} {trouble : Trouble}
      (before : History start moments m) (result : m.step = (next, some trouble)) : History start moments next
  | cancelled {moments : List Moment} {m : Machine} (before : History start moments m)
      (live : m.status.isTerminal = false) : History start moments { m with status := .cancelled }

theorem exists_history {start m : Machine} {sent : List String} (driven : Driven start sent m) :
    ∃ moments, History start moments m := by
  induction driven with
  | start => exact ⟨[], .start⟩
  | @step sent m before ih =>
    obtain ⟨moments, history⟩ := ih
    cases result : m.step with
    | mk next trouble =>
      cases trouble with
      | some trouble => exact ⟨moments, .uncompleted history result⟩
      | none =>
        obtain ⟨i, fetched, -⟩ := trace_of_completed result
        exact ⟨moments ++ [⟨m, i, next⟩], .completed history fetched result⟩
  | cancel before live ih =>
    obtain ⟨moments, history⟩ := ih
    exact ⟨moments, .cancelled history live⟩

/-! ## One record -/

/-- The word of every accumulator is the word of its location. -/
theorem read_accumulator (m : Machine) (n : Fin 8) :
    m.memory.read n.val = .ok (m.registers.accumulators.get n) := by
  have room : accumulatorCount ≤ m.memory.size := m.memory.holds_accumulators
  have inside : n.val < m.memory.size := Nat.lt_of_lt_of_le n.isLt room
  rw [Memory.read_eq (by omega)]
  simp [registers, Memory.accumulators, Memory.accumulator]

/-- A fetched instruction is the one of an instruction word at the counter. -/
theorem exists_word_of_fetch {m : Machine} {i : Instruction} (fetched : m.fetch = .ok i) :
    ∃ w, m.memory.read m.counter = .ok w ∧ w.isInstruction = true ∧ Instruction.decode w = .ok i := by
  unfold fetch at fetched
  split at fetched
  · cases fetched
  next w read =>
    split at fetched
    next tag =>
      cases fetched
      exact ⟨w, read, by simp [Word.isInstruction, tag], by simp [Instruction.decode, tag]⟩
    · cases fetched

/-- What a record shows of a completed step: its place and the instruction word there, and the registers before
and after it, the accumulators being the first locations of memory at that time. -/
structure Moment.Shown (x : Moment) (r : TraceRecord) : Prop where
  located : r.location = r.before.counter
  word : ∃ w, x.before.memory.read r.location = .ok w ∧ w.isInstruction = true ∧
    Instruction.decode w = .ok x.instruction
  name : r.name = shownName x.instruction
  stepped : x.before.step = (x.after, none)
  before : r.before = x.before.registers
  after : r.after = x.after.registers
  held_before : ∀ n : Fin 8, x.before.memory.read n.val = .ok (r.before.accumulators.get n)
  held_after : ∀ n : Fin 8, x.after.memory.read n.val = .ok (r.after.accumulators.get n)

theorem shown_record {x : Moment} (fetched : x.before.fetch = .ok x.instruction)
    (result : x.before.step = (x.after, none)) : x.Shown x.record where
  located := rfl
  word := exists_word_of_fetch fetched
  name := rfl
  stepped := result
  before := rfl
  after := rfl
  held_before := read_accumulator x.before
  held_after := read_accumulator x.after

/-! ## All records -/

/-- The records lead from the registers of a machine at its start to its registers of now. -/
structure TraceChain (start now : Machine) (records : List TraceRecord) : Prop where
  kept : now.trace = some records.toArray
  counted : records.length = now.steps
  linked : records.IsChain fun r s => r.after = s.before
  opens : ∀ r, records.head? = some r → r.before = start.registers
  closes : ∀ r, records.getLast? = some r → r.after = now.registers
  idle : records = [] → now.registers = start.registers

namespace TraceChain

variable {start now next : Machine} {records : List TraceRecord}

/-- A completed step adds a link. -/
theorem completed (chain : TraceChain start now records) {i : Instruction} (fetched : now.fetch = .ok i)
    (result : now.step = (next, none)) : TraceChain start next (records ++ [recordOf now next i]) := by
  obtain ⟨j, again, recorded, -⟩ := trace_of_completed result
  cases fetched.symm.trans again
  constructor
  case kept => simp [recorded, chain.kept]
  case counted => simp [steps_of_completed result, chain.counted]
  case linked =>
    refine List.isChain_append.mpr ⟨chain.linked, .singleton _, fun r ends s opens => ?_⟩
    cases opens
    exact chain.closes r ends
  case opens =>
    intro r first
    cases records with
    | nil =>
      cases first
      exact chain.idle rfl
    | cons s others => exact chain.opens r first
  case closes =>
    intro r ends
    rw [List.getLast?_concat] at ends
    cases ends
    rfl
  case idle => simp

/-- What adds no record changes no register. -/
theorem unchanged (chain : TraceChain start now records) (registers : next.registers = now.registers)
    (trace : next.trace = now.trace) (steps : next.steps = now.steps) : TraceChain start next records where
  kept := trace ▸ chain.kept
  counted := steps ▸ chain.counted
  linked := chain.linked
  opens := chain.opens
  closes r ends := registers ▸ chain.closes r ends
  idle empty := registers ▸ chain.idle empty

theorem uncompleted (chain : TraceChain start now records) {trouble : Trouble}
    (result : now.step = (next, some trouble)) : TraceChain start next records := by
  obtain ⟨sent, -, outcome⟩ := stepCase_of_step result
  cases outcome with
  | refused => exact chain
  | faulted supply live here steps => exact chain.unchanged rfl rfl rfl
  | interrupted supply live outside => exact chain.unchanged rfl rfl rfl

end TraceChain

section

variable {start now : Machine} {moments : List Moment}

theorem History.chain (history : History start moments now) (fresh : start.trace = some #[] ∧ start.steps = 0) :
    TraceChain start now (moments.map Moment.record) := by
  induction history with
  | start => exact ⟨fresh.1, fresh.2.symm, .nil, nofun, nofun, fun _ => rfl⟩
  | completed before fetched result ih =>
    rw [List.map_append]
    exact ih.completed fetched result
  | uncompleted before result ih => exact ih.uncompleted result
  | cancelled before live ih => exact ih.unchanged rfl rfl rfl

theorem History.shown (history : History start moments now) : ∀ x ∈ moments, x.Shown x.record := by
  induction history with
  | start => simp
  | completed before fetched result ih =>
    intro x member
    rcases List.mem_append.mp member with earlier | last
    · exact ih x earlier
    · obtain rfl := List.mem_singleton.mp last
      exact shown_record fetched result
  | uncompleted before result ih => exact ih
  | cancelled before live ih => exact ih

end

/-! ## Sessions -/

/-- What the trace of a session is: the records of the steps that were completed in it, one for each, in order,
and a chain. -/
structure SessionTraced (start now : Machine) (moments : List Moment) : Prop where
  history : History start moments now
  chain : TraceChain start now (moments.map Moment.record)
  shown : ∀ x ∈ moments, x.Shown x.record

/-- Whatever a machine with a trace is asked for, its trace is a chain of the steps that it completed. -/
theorem session_traced {assembly : Assembly} {size : Int} {supply : Supply} {m : Machine}
    (loaded : Machine.load assembly size supply true = .ok m) (calls : List Call) :
    ∃ moments, SessionTraced m (m.session calls).1 moments := by
  obtain ⟨moments, history⟩ := exists_history (driven_session m calls)
  have fresh : m.trace = some #[] ∧ m.steps = 0 := by
    obtain ⟨memory, -, made⟩ := bind_eq_ok_iff.mp loaded
    cases made
    exact ⟨rfl, rfl⟩
  exact ⟨moments, history, history.chain fresh, history.shown⟩

/-- A program that reads a number, stores it in the first location, which is an accumulator, and reads again. -/
def storingProgram : Assembly where
  origin := 8
  words := [⟨8, ⟨.instruction, 0o77100004⟩, 1⟩, ⟨9, ⟨.instruction, 0o50100000⟩, 2⟩,
    ⟨10, ⟨.instruction, 0o77100004⟩, 3⟩]
  literals := []
  labels := []
  listing := []
  file := "storing"

/-- The program in eleven words of memory, with one number to read. -/
def storingMachine : Machine where
  memory := ⟨(((Array.replicate 11 Word.zero).set 8 ⟨.instruction, 0o77100004⟩).set 9
    ⟨.instruction, 0o50100000⟩).set 10 ⟨.instruction, 0o77100004⟩, by decide⟩
  counter := 8
  supply := { input := .numbers [.integer 7] }
  trace := some #[]

/-- Two steps are recorded, the store as a change of an accumulator, and the third one faults. -/
theorem storingMachine_session_traced :
    Machine.load storingProgram 11 { input := .numbers [.integer 7] } true = .ok storingMachine ∧
    (storingMachine.session [.step, .run [false, false], .step]).1.fault =
      some ⟨.inputExhausted, 10, some "READ", 2⟩ ∧
    ∃ moments, SessionTraced storingMachine
      (storingMachine.session [.step, .run [false, false], .step]).1 moments := by
  have loaded : Machine.load storingProgram 11 { input := .numbers [.integer 7] } true = .ok storingMachine := rfl
  exact ⟨loaded, by decide +kernel, session_traced loaded _⟩

end WordMachine.Machine
