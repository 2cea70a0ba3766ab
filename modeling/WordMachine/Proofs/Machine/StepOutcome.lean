import WordMachine.Proofs.Assembly.Image
import WordMachine.Proofs.Machine.Soundness
import WordMachine.Proofs.Machine.StepCases

/-!
# A step completes or faults

In every reachable machine that has not ended, a step either completes its instruction, and the count of
steps grows by one, or it faults and changes nothing but the status. Left aside are an input that holds a
word which is no number, and integers of more than 4300 digits, which are never written.
-/
namespace WordMachine.Machine

/-! ## Registers stay in range -/

/-- Index registers hold 24-bit values, and the counter is at a location of the memory or at most two words behind
the last one. -/
structure InRange (m : Machine) : Prop where
  registers : m.IndexFits
  counter : 0 ≤ m.counter ∧ m.counter ≤ m.memory.size + 1

/-- The counter of a fetched instruction is a location of the memory. -/
theorem counter_inside {m : Machine} {i : Instruction} (fetched : m.fetch = .ok i) :
    0 ≤ m.counter ∧ m.counter < m.memory.size := by
  unfold fetch at fetched
  cases read : m.memory.read m.counter with
  | error e => simp [read] at fetched
  | ok w =>
    obtain ⟨n, found, -⟩ := map_eq_ok_iff.mp read
    have here := Memory.check_eq_ok_iff.mp found
    omega

theorem size_apply (m : Machine) (e : Effect) : (m.apply e).memory.size = m.memory.size := by
  cases write : e.write <;> simp [apply, write]

theorem indexFits_apply {m : Machine} {e : Effect} (registers : m.IndexFits) (sound : e.Sound m) :
    (m.apply e).IndexFits := by
  intro n
  cases set : e.setIndex with
  | none => simpa [apply, set] using registers n
  | some entry =>
    obtain ⟨k, value⟩ := entry
    by_cases same : k = n
    · subst same
      simpa [apply, set, Vector.get_eq_getElem] using sound.index_fits k value set
    · have different : k.val ≠ n.val := fun equal => same (Fin.ext equal)
      simpa [apply, set, Vector.get_eq_getElem, Vector.getElem_set, different] using registers n

theorem InRange.complete {m : Machine} (before : m.InRange) {i : Instruction} {supply : Supply} {e : Effect}
    (fetched : m.fetch = .ok i) (sound : e.Sound m) (name : String) :
    ((m.withSupply supply).complete name e).InRange where
  registers := indexFits_apply (m := m.withSupply supply) before.registers ⟨sound.1, sound.2, sound.3, sound.4⟩
  counter := by
    have inside := counter_inside fetched
    have near := sound.next_near
    have room : ((m.withSupply supply).complete name e).memory.size = m.memory.size := size_apply _ e
    rw [room]
    show 0 ≤ e.next ∧ e.next ≤ m.memory.size + 1
    omega

/-- Steps stay in range. -/
theorem InRange.step {m : Machine} (before : m.InRange) : m.step.1.InRange := by
  have outcome := step_cases m
  generalize m.step.1 = next, m.step.2 = trouble, m.sends = texts at outcome
  cases outcome with
  | refused => exact before
  | completed live fetched executed => exact before.complete fetched (execute_does executed).sound _
  | faulted | interrupted => exact ⟨before.registers, before.counter⟩

/-- A run starts at a program word. -/
theorem entry_inside {assembly : Assembly} {size location : Int}
    (inside : ∀ entry ∈ assembly.image, 0 ≤ entry.1 ∧ entry.1 < size)
    (entry : assembly.entry = some location) : 0 ≤ location ∧ location < size := by
  obtain ⟨w, member, rfl⟩ := List.mem_map.mp (List.min?_mem entry)
  refine inside (w.location, w.word) (List.mem_append_right _ (List.mem_map.mpr ⟨w, ?_, rfl⟩))
  exact (List.mem_filter.mp member).1

/-- A loaded machine starts in range. -/
theorem inRange_of_load {assembly : Assembly} {size : Int} {supply : Supply} {traced : Bool} {m : Machine}
    (loaded : Machine.load assembly size supply traced = .ok m) : m.InRange := by
  obtain ⟨memory, filled, made⟩ := bind_eq_ok_iff.mp loaded
  obtain ⟨room, inside⟩ := loadMemory_ok filled
  cases made
  constructor
  · intro n
    simp [Word.fits, Word.minInteger, Word.maxInteger]
  · cases entry : assembly.entry with
    | none =>
      dsimp only [Option.getD_none]
      omega
    | some location =>
      have bounds := entry_inside inside entry
      dsimp only [Option.getD_some]
      omega

/-- Loading clears the index registers, and no step sets one to a value beyond 24 bits or leads far out of the
memory. -/
theorem Reachable.inRange {m : Machine} (reachable : Reachable m) : m.InRange := by
  induction reachable with
  | load loaded => exact inRange_of_load loaded
  | step _ ih => exact ih.step
  | cancel _ _ ih => exact ⟨ih.registers, ih.counter⟩

/-! ## The two outcomes -/

/-- The second machine has everything that the first one has, but for its status and what is left
outside. -/
structure Untouched (m next : Machine) : Prop where
  memory : next.memory = m.memory
  index : next.index = m.index
  counter : next.counter = m.counter
  steps : next.steps = m.steps
  printed : next.printed = m.printed
  output : next.output = m.output
  trace : next.trace = m.trace

/-- A step that completes an instruction: it is counted, and all it does is apply a sound effect. -/
def CompletesTo (m next : Machine) : Prop :=
  m.step = (next, none) ∧ next.steps = m.steps + 1 ∧
    ∃ supply name e, e.Sound m ∧ next = (m.withSupply supply).complete name e

/-- A step that faults: the fault is at the counter, the run has ended with it, and all else is as it
was. -/
def FaultsTo (m next : Machine) (f : Fault) : Prop :=
  m.step = (next, some (.fault f)) ∧ next.status = .faulted f ∧ next.fault = some f ∧
    f.location = m.counter ∧ f.steps = m.steps ∧ Untouched m next

theorem FaultsTo.incomplete {m next : Machine} {f : Fault} (faults : m.FaultsTo next f) (other : Machine) :
    m.step ≠ (other, none) := by
  intro completed
  cases faults.1.symm.trans completed

/-- Two steps that fault for one kind of reason fault for the same kinds. -/
theorem FaultsTo.kind_iff {m next k other : Machine} {f g : Fault} (faults : m.FaultsTo next f)
    (too : k.FaultsTo other g) (same : f.cause.kind = g.cause.kind) (kind : FaultKind) :
    (∃ next f, m.FaultsTo next f ∧ f.cause.kind = kind) ↔ ∃ next f, k.FaultsTo next f ∧ f.cause.kind = kind := by
  constructor
  · rintro ⟨x, h, again, rfl⟩
    cases faults.1.symm.trans again.1
    exact ⟨other, g, too, same.symm⟩
  · rintro ⟨x, h, again, rfl⟩
    cases too.1.symm.trans again.1
    exact ⟨next, f, faults, same⟩

theorem faultWith_of_writable (m : Machine) {cause : FaultCause} (written : cause.isWritable = true)
    (name : Option String) :
    m.faultWith cause name = ({ m with status := .faulted ⟨cause, m.counter, name, m.steps⟩ },
      some (.fault ⟨cause, m.counter, name, m.steps⟩)) := by
  simp [faultWith, written]

/-- A fault with a cause that can be written ends the step with that cause, whatever was used up outside. -/
theorem faultsTo_with_cause {m : Machine} (supply : Supply) {cause : FaultCause}
    {name : Option String} (written : cause.isWritable = true)
    (result : m.step = (m.withSupply supply).faultWith cause name) :
    ∃ next f, m.FaultsTo next f ∧ f.cause = cause := by
  rw [faultWith_of_writable _ written] at result
  exact ⟨_, _, ⟨result, rfl, rfl, rfl, rfl, ⟨rfl, rfl, rfl, rfl, rfl, rfl, rfl⟩⟩, rfl⟩

theorem faultsTo_of_faultWith {m : Machine} (supply : Supply) {cause : FaultCause}
    {name : Option String} (written : cause.isWritable = true)
    (result : m.step = (m.withSupply supply).faultWith cause name) :
    ∃ next f, m.FaultsTo next f := by
  obtain ⟨next, f, faults, -⟩ := faultsTo_with_cause supply written result
  exact ⟨next, f, faults⟩

/-- A fetch fails with a cause that can be written, since the counter is not far out. -/
theorem InRange.isWritable_of_fetch_error {m : Machine} (range : m.InRange) {cause : FaultCause}
    (unfetched : m.fetch = .error cause) : cause.isWritable = true := by
  have near := range.counter
  have room := m.memory.holds_accumulators
  have shown : m.memory.shows m.counter = true := by
    have close : m.counter.natAbs ≤ 2 * m.memory.size := by
      simp only [Memory.size, accumulatorCount] at near room ⊢
      omega
    simp [Memory.shows, close]
  unfold fetch at unfetched
  split at unfetched
  next e unread =>
    cases unfetched
    have refused : m.memory.check m.counter = .error e := map_eq_error_iff.mp unread
    unfold Memory.check at refused
    split at refused
    · cases refused
    · cases refused
      rfl
  · split at unfetched <;> cases unfetched
    rfl

/-- One step of a live reachable machine has exactly two outcomes. -/
theorem step_completes_or_faults {m : Machine} (reachable : Reachable m)
    (live : m.status.isTerminal = false)
    (readable : ∀ word rest, m.supply.input.next ≠ .unreadable word rest)
    (short : ∀ i, m.fetch = .ok i → ¬ m.BringsUpOverlong i) :
    (∃ next, m.CompletesTo next) ∨ (∃ next f, m.FaultsTo next f) := by
  cases fetched : m.fetch with
  | error cause =>
    exact Or.inr (faultsTo_of_faultWith m.supply (reachable.inRange.isWritable_of_fetch_error fetched)
      (step_of_fetch_error live fetched))
  | ok i =>
    cases executed : m.execute i with
    | mk supply result =>
      have comes := m.execute_spec i
      rw [executed] at comes
      cases result with
      | ok e =>
        have sound : e.Sound m := Does.sound comes
        exact Or.inl ⟨_, step_of_completed live fetched executed, rfl, supply, shownName i, e, sound, rfl⟩
      | error obstacle =>
        cases obstacle with
        | fault cause =>
          have written : cause.isWritable = true :=
            (Fails.isWritable comes reachable.inRange.registers).resolve_right (short i fetched)
          exact Or.inr (faultsTo_of_faultWith supply written (step_of_faulted live fetched executed))
        | unreadable word =>
          obtain ⟨called, rest, delivered⟩ := comes
          exact absurd delivered (readable word rest)

def readingProgram : Assembly where
  origin := 8
  words := [⟨8, ⟨.instruction, 0o77100004⟩, 1⟩]
  literals := []
  labels := []
  listing := []
  file := "read"

/-- The program in sixteen words of memory, with the least number that no word holds as its input. -/
def readingMachine : Machine where
  memory := ⟨(Array.replicate 16 Word.zero).set 8 ⟨.instruction, 0o77100004⟩, by decide⟩
  counter := 8
  supply := { input := .numbers [.integer 8388608] }

/-- The number fits no word, so the step faults. -/
theorem readingMachine_step :
    Reachable readingMachine ∧ readingMachine.status.isTerminal = false ∧
    (∀ word rest, readingMachine.supply.input.next ≠ .unreadable word rest) ∧
    (∀ i, readingMachine.fetch = .ok i → ¬ readingMachine.BringsUpOverlong i) ∧
    ((∃ next, readingMachine.CompletesTo next) ∨ (∃ next f, readingMachine.FaultsTo next f)) := by
  have reachable : Reachable readingMachine := .load (show Machine.load readingProgram 16
    { input := .numbers [.integer 8388608] } false = .ok readingMachine from rfl)
  have readable : ∀ word rest, readingMachine.supply.input.next ≠ .unreadable word rest := by
    intro word rest delivered
    cases delivered
  have reads : readingMachine.fetch = .ok ⟨.extra, 1, 0, false, 0, 4⟩ := rfl
  have short : ∀ i, readingMachine.fetch = .ok i → ¬ readingMachine.BringsUpOverlong i := by
    rintro i fetched (⟨shl, -⟩ | ⟨-, -, n, rest, delivered, long⟩)
    · rw [reads] at fetched
      cases fetched
      cases shl
    · cases delivered
      rw [Text.isWritable_of_natAbs_lt (by decide)] at long
      cases long
  exact ⟨reachable, rfl, readable, short, step_completes_or_faults reachable rfl readable short⟩

end WordMachine.Machine
