import WordMachine.Proofs.Assembly.Occupancy
import WordMachine.Proofs.Machine.Calls
import WordMachine.Proofs.Machine.Legibility
import WordMachine.Proofs.Source.WrittenInstruction

/-!
# Traces of runs

A traced machine has one record for each step that it completed, in the order of the steps (`Performs`), and
a trace has one line for each record. The trace of a run can be shown exactly when each accumulator that some
instruction changed is legible, as it was and as it became; a text whose bits were inverted need not be, and
then there is no trace at all (`invertedText_not_shown`). Programs that never rearrange bits have a trace
that can be shown.
-/
namespace WordMachine

def rearrangingNames : List String :=
  (Mnemonic.all.filter Mnemonic.rearranges).map Mnemonic.name

namespace Machine

/-! ## Steps and their records -/

def recordOf (m next : Machine) (i : Instruction) : TraceRecord :=
  ⟨m.counter, shownName i, m.registers, next.registers⟩

/-- Steps that are completed one after the other, each with its record. -/
inductive Performs : Machine → List TraceRecord → Machine → Prop where
  | none {m : Machine} : Performs m [] m
  | step {m next last : Machine} {i : Instruction} {records : List TraceRecord}
      (fetched : m.fetch = .ok i) (result : m.step = (next, none)) (others : Performs next records last) :
      Performs m (recordOf m next i :: records) last

/-- A run stops where the last step led, or it was cancelled there, or the next step was not completed. -/
inductive StoppedAs (last : Machine) : Machine → Prop where
  | underWay : StoppedAs last last
  | cancelled : StoppedAs last { last with status := .cancelled }
  | troubled {after : Machine} {trouble : Trouble} (result : last.step = (after, some trouble)) :
    StoppedAs last after

/-- A completed step has an instruction, and adds its record to the trace. -/
theorem trace_of_completed {m next : Machine} (result : m.step = (next, none)) :
    ∃ i, m.fetch = .ok i ∧ next.trace = m.trace.map (·.push (recordOf m next i)) ∧
      ∃ supply e, m.execute i = (supply, .ok e) ∧ next = (m.withSupply supply).complete (shownName i) e := by
  obtain ⟨sent, -, outcome⟩ := stepCase_of_step result
  cases outcome with
  | @completed i supply e live fetched executed => exact ⟨i, fetched, rfl, supply, e, executed, rfl⟩

/-- A step that is not completed leaves no record and is not counted. -/
theorem StoppedAs.kept {last after : Machine} (stopped : last.StoppedAs after) :
    after.trace = last.trace ∧ after.steps = last.steps := by
  cases stopped with
  | underWay => exact ⟨rfl, rfl⟩
  | cancelled => exact ⟨rfl, rfl⟩
  | troubled result =>
    obtain ⟨sent, -, outcome⟩ := stepCase_of_step result
    cases outcome <;> exact ⟨rfl, rfl⟩

section

variable {m last : Machine} {records : List TraceRecord}

theorem Performs.trace (performs : m.Performs records last) :
    last.trace = m.trace.map (· ++ records.toArray) := by
  induction performs with
  | none => simp
  | @step m next last i records fetched result others ih =>
    obtain ⟨j, again, recorded, -⟩ := trace_of_completed result
    cases fetched.symm.trans again
    rw [ih, recorded, Option.map_map]
    congr 1
    funext before
    simp

theorem Performs.steps (performs : m.Performs records last) : last.steps = m.steps + records.length := by
  induction performs with
  | none => rfl
  | step fetched result others ih =>
    rw [ih, steps_of_completed result, List.length_cons]
    omega

/-- A run completes steps one after the other until it stops. -/
theorem exists_performs_runAsking (answers : List Bool) (m : Machine) :
    ∃ records last, m.Performs records last ∧ last.StoppedAs (runAsking answers m).machine := by
  induction answers generalizing m with
  | nil => exact ⟨[], m, .none, .underWay⟩
  | cons cancel answers ih =>
    unfold runAsking
    split
    · exact ⟨[], m, .none, .underWay⟩
    · split
      · exact ⟨[], m, .none, .cancelled⟩
      · cases result : m.step with
        | mk next trouble =>
          cases trouble with
          | some trouble => exact ⟨[], m, .none, .troubled result⟩
          | none =>
            obtain ⟨records, last, others, stopped⟩ := ih next
            obtain ⟨i, fetched, -⟩ := trace_of_completed result
            exact ⟨recordOf m next i :: records, last, .step fetched result others, stopped⟩

/-- A run is a number of completed steps, each recorded, and then an end. -/
theorem exists_performs_run (answers : List Bool) (m : Machine) :
    ∃ records last, m.Performs records last ∧ last.StoppedAs (m.call (.run answers)).machine := by
  unfold call
  dsimp only
  split
  · exact ⟨[], m, .none, .underWay⟩
  · split
    · exact ⟨[], m, .none, .underWay⟩
    · exact exists_performs_runAsking answers m

/-! ## What the records show -/

/-- All but a call is shown by its mnemonic. -/
theorem shownName_of_ne_extra {i : Instruction} (other : i.mnemonic ≠ .extra) :
    shownName i = i.mnemonic.name := by
  unfold shownName Vocabulary.shownName
  dsimp only
  split
  next extra => exact absurd extra other
  · rfl

theorem unbroken_mnemonicName (mnemonic : Mnemonic) : Text.Unbroken mnemonic.name.toList :=
  (Text.Visible.of_isUpper fun _ => Source.isUpper_of_mem_name).unbroken

theorem unbroken_routineName (r : Routine) : Text.Unbroken r.name.toList := by
  cases r <;> simp [Routine.name, Text.Unbroken, Text.endsLine]

theorem unbroken_shownName (i : Instruction) : Text.Unbroken (shownName i).toList := by
  unfold shownName Vocabulary.shownName
  dsimp only
  split
  next extra =>
    rw [extra]
    cases Routine.ofNumber? _ with
    | none => exact unbroken_mnemonicName .extra
    | some r => exact unbroken_routineName r
  · exact unbroken_mnemonicName _

theorem Performs.named (performs : m.Performs records last) :
    ∀ r ∈ records, Text.Unbroken r.name.toList := by
  induction performs with
  | none => exact nofun
  | step fetched result others ih => exact List.forall_mem_cons.mpr ⟨unbroken_shownName _, ih⟩

/-- The name that is shown tells an instruction that rearranges bits. -/
theorem shownName_mem_rearrangingNames {i : Instruction} (rearranges : i.mnemonic.rearranges = true) :
    shownName i ∈ rearrangingNames := by
  have other : i.mnemonic ≠ .extra := fun extra => by simp [extra, Mnemonic.rearranges] at rearranges
  have listed : ∀ mnemonic : Mnemonic, mnemonic ∈ Mnemonic.all := fun mnemonic => by cases mnemonic <;> decide
  rw [shownName_of_ne_extra other]
  exact List.mem_map_of_mem (List.mem_filter.mpr ⟨listed _, rearranges⟩)

theorem legible_recordOf {next : Machine} {i : Instruction} (before : m.memory.Legible)
    (after : next.memory.Legible) : (recordOf m next i).Legible := by
  intro n _
  have held (k : Machine) : k.registers.accumulators.get n = k.memory.get n.val := by
    simp [registers, Memory.accumulators, Memory.accumulator]
  rw [recordOf, held, held]
  exact ⟨before _, after _⟩

/-- Steps that do not rearrange bits keep the memory legible, and so their records are. -/
theorem Performs.legible (performs : m.Performs records last) (legible : m.memory.Legible)
    (plain : ∀ r ∈ records, r.name ∉ rearrangingNames) : ∀ r ∈ records, r.Legible := by
  induction performs with
  | none => exact nofun
  | @step m next last i records fetched result others ih =>
    rw [List.forall_mem_cons] at plain ⊢
    obtain ⟨j, again, -, supply, e, executed, rfl⟩ := trace_of_completed result
    cases fetched.symm.trans again
    have kept : i.mnemonic.rearranges = false := by
      rw [← Bool.not_eq_true]
      exact fun rearranges => plain.1 (shownName_mem_rearrangingNames rearranges)
    have after := @legible_complete _ _ _ _ (shownName i) executed legible kept
    exact ⟨legible_recordOf legible after, ih after plain.2⟩

end

/-! ## The trace of a run -/

/-- What the trace of a run is, and when it can be shown. -/
structure RunTraced (start after : Machine) (records : List TraceRecord) : Prop where
  kept : after.trace = some records.toArray
  counted : after.steps = records.length
  performed : ∃ last, start.Performs records last ∧ last.StoppedAs after
  shown : (∃ text, Trace.render records = .ok text) ↔ ∀ r ∈ records, r.Legible
  refused : ∀ e, Trace.render records = .error e → e.IsUnmapped
  lines : ∀ text, Trace.render records = .ok text →
    List.Forall₂ (fun r line => Trace.row r = .ok line) records (Text.lines text)
  plain : (∀ r ∈ records, r.name ∉ rearrangingNames) → ∃ text, Trace.render records = .ok text

/-- Whatever an assembled program is given and whenever it is cancelled, its trace has one record for each
completed step, in order. It can be shown exactly if its records are legible, and then it has one line for
each of them. -/
theorem run_traced {asm : Assembler} {source file : String} {a : Assembly} {size : Int} {supply : Supply}
    {m : Machine} (assembled : (asm.assemble source file).value.2 = .ok a)
    (loaded : Machine.load a size supply true = .ok m) (answers : List Bool) :
    ∃ records, m.RunTraced (m.call (.run answers)).machine records := by
  obtain ⟨memory, filled, made⟩ := bind_eq_ok_iff.mp loaded
  have legible : m.memory.Legible := by
    cases made
    exact legible_loadMemory (legible_image assembled) filled
  have fresh : m.trace = some #[] ∧ m.steps = 0 := by
    cases made
    exact ⟨rfl, rfl⟩
  obtain ⟨records, last, performs, stopped⟩ := exists_performs_run answers m
  refine ⟨records, ?_, ?_, ⟨last, performs, stopped⟩, Trace.exists_render_iff,
    fun e refused => Trace.isUnmapped_of_render refused,
    fun text shown => Trace.lines_render performs.named shown,
    fun plain => Trace.exists_render_iff.mpr (performs.legible legible plain)⟩
  · rw [stopped.kept.1, performs.trace, fresh.1]
    simp
  · rw [stopped.kept.2, performs.steps, fresh.2, Nat.zero_add]

/-- A program that reads a number, adds three to it, inverts the bits of the sum and stops. -/
def invertingSource : String :=
  "READ\nADD 0, +3\nTNOT 1, 0\nSTOP"

/-- The bits of an integer are inverted, not those of a text, so the trace can be shown. -/
theorem invertingSource_traced : ∃ a m,
    ((Assembler.new {}).assemble invertingSource "inverting").value.2 = .ok a ∧
    Machine.load a fullMemorySize { input := .numbers [.integer 4] } true = .ok m ∧
    ∃ records, m.RunTraced (m.call (.run [false, false, false, false])).machine records := by
  have accepted : ((Assembler.new {}).assemble invertingSource "inverting").value.2.isOk = true := by
    decide +kernel
  obtain ⟨a, assembled⟩ := isOk_iff.mp accepted
  obtain ⟨m, loaded⟩ := exists_load_of_assemble assembled (Int.le_refl fullMemorySize) (by decide)
    { input := .numbers [.integer 4] } true
  exact ⟨a, m, assembled, loaded, run_traced assembled loaded _⟩

/-- The machine of a source text in full memory, about to run with a trace and nothing to read. -/
def tracedMachine? (source : String) : Option Machine :=
  match ((Assembler.new {}).assemble source "source").value.2 with
  | .ok a => (Machine.load a fullMemorySize {} true).toOption
  | .error _ => none

/-- A text with its bits inverted holds codes without a character. The run that leaves it in an accumulator
has completed one step when it faults, and it has no trace to show. -/
theorem invertedText_not_shown : ∃ m, tracedMachine? "TNOT 1, \"A\"" = some m ∧
    (m.call (.run [false, false])).machine.steps = 1 ∧
    ∃ records, (m.call (.run [false, false])).machine.trace = some records ∧
      Trace.render records.toList = .error (.charset (.unmapped 63 1)) := by
  have runs : (tracedMachine? "TNOT 1, \"A\"").map (fun m =>
      let after := (m.call (.run [false, false])).machine
      (after.steps, after.trace.bind fun records => error? (Trace.render records.toList))) =
      some (1, some (.charset (.unmapped 63 1))) := by
    decide +kernel
  obtain ⟨m, made, both⟩ := Option.map_eq_some_iff.mp runs
  obtain ⟨counted, refused⟩ := Prod.mk.inj both
  obtain ⟨records, kept, shown⟩ := Option.bind_eq_some_iff.mp refused
  exact ⟨m, made, counted, records, kept, error?_eq_some_iff.mp shown⟩

end Machine

end WordMachine
