import WordMachine.Proofs.Machine.Consistency
import WordMachine.Proofs.Machine.Effects
import WordMachine.Proofs.Machine.History

/-!
# What a completed step leaves alone

A completed step changes at most one word of the memory, at a location that is known before it, at most one index
register, and the output only if its instruction prints (`Framed`); and it goes on where its instruction says. So a
word that no completed step aims at is still there at the end of a session (`get_of_untargeted`).
-/
namespace WordMachine.Machine

section

variable (m : Machine) (i : Instruction)

/-- The one location whose word the instruction may change: an accumulator, or the location that it names. -/
def target? : Option Nat :=
  match i.mnemonic.family with
  | .accumulator | .shift | .library => some i.accumulator.val
  | .index => if i.mnemonic = .nilx then some i.accumulator.val else none
  | .store => (m.effectiveAddress i).toOption
  | .skip | .jump => none

/-- Where the machine goes on after the instruction. -/
inductive GoesOn : Int → Prop where
  | straight (unskipped : ¬ m.Skips i) (unjumped : ¬ m.Jumps i) (unstopped : ¬ m.Calls i .stop) :
    GoesOn (m.counter + 1)
  | skipped (taken : m.Skips i) : GoesOn (m.counter + 2)
  | jumped {target : Nat} (taken : m.Jumps i) (address : m.effectiveAddress i = .ok target) : GoesOn target
  | stopped (called : m.Calls i .stop) : GoesOn m.counter

/-- All that is different after the instruction was completed. -/
structure Framed (next : Machine) : Prop where
  room : next.memory.size = m.memory.size
  memory : ∀ location, m.target? i ≠ some location → next.memory.get location = m.memory.get location
  index : ∀ n, next.index.get n ≠ m.index.get n → i.mnemonic.family = .index ∧ n = i.accumulator
  output : next.printed ≠ m.printed →
    ∃ r text, m.Calls i r ∧ r.prints = true ∧ next.printed = m.printed.push text
  counter : m.GoesOn i next.counter

end

section

variable {m next : Machine} {i : Instruction} {e : Effect}

/-! ## The way on -/

theorem family_of_skips (skips : m.Skips i) : i.mnemonic.family = .skip := by
  unfold Skips at skips
  dsimp only at skips
  split at skips
  case h_6 => exact skips.elim
  case h_1 | h_2 | h_3 | h_4 | h_5 => exact congrArg Mnemonic.family ‹_›

theorem family_of_jumps (jumps : m.Jumps i) : i.mnemonic.family = .jump := by
  unfold Jumps at jumps
  split at jumps
  case h_6 => exact jumps.elim
  case h_1 | h_2 | h_3 | h_4 | h_5 => exact congrArg Mnemonic.family ‹_›

theorem family_of_calls {r : Routine} (called : m.Calls i r) : i.mnemonic.family = .library :=
  congrArg Mnemonic.family called.1

/-- An instruction that neither compares nor jumps nor calls goes straight on. -/
theorem goesOn_of_family {family : Mnemonic.Family} (mine : i.mnemonic.family = family)
    (other : family ≠ .skip ∧ family ≠ .jump ∧ family ≠ .library) : m.GoesOn i (m.counter + 1) := by
  subst mine
  exact .straight (fun skips => other.1 (family_of_skips skips))
    (fun jumps => other.2.1 (family_of_jumps jumps)) fun called => other.2.2 (family_of_calls called)

/-- A call of a routine that does not stop the program goes straight on. -/
theorem goesOn_of_calls {r : Routine} (called : m.Calls i r) (other : r ≠ .stop) :
    m.GoesOn i (m.counter + 1) := by
  have library := family_of_calls called
  refine .straight (fun skips => ?_) (fun jumps => ?_) fun stops => ?_
  · cases library.symm.trans (family_of_skips skips)
  · cases library.symm.trans (family_of_jumps jumps)
  · exact other (Except.ok.inj (called.2.symm.trans stops.2))

theorem Does.goesOn (does : m.Does i e) : m.GoesOn i e.next := by
  cases does with
  | nothing idle => exact goesOn_of_family (congrArg Mnemonic.family idle) (by decide)
  | sets family => rcases family with family | family <;> exact goesOn_of_family family (by decide)
  | setsIndex family => exact goesOn_of_family family (by decide)
  | exchanges exchange => exact goesOn_of_family (congrArg Mnemonic.family exchange) (by decide)
  | stores family => exact goesOn_of_family family (by decide)
  | compares taken family _ decided =>
    cases taken with
    | true => exact .skipped (decided.mp rfl)
    | false =>
      refine .straight (fun skips => ?_) (fun jumps => ?_) fun stops => ?_
      · cases decided.mpr skips
      · cases family.symm.trans (family_of_jumps jumps)
      · cases family.symm.trans (family_of_calls stops)
  | jumps family address taken => exact .jumped taken address
  | stays family _ untaken =>
    refine .straight (fun skips => ?_) untaken fun stops => ?_
    · cases family.symm.trans (family_of_skips skips)
    · cases family.symm.trans (family_of_calls stops)
  | computes called other => exact goesOn_of_calls called other.2
  | prints called printed => exact goesOn_of_calls called (by rintro rfl; cases printed)
  | stops called => exact .stopped called

/-! ## Words, index registers and output -/

theorem Does.write (does : m.Does i e) {location : Nat} {w : Word} (wrote : e.write = some (location, w)) :
    m.target? i = some location := by
  unfold target?
  cases does with
  | nothing | setsIndex | jumps | stays | prints | stops => cases wrote
  | compares taken => cases taken <;> cases wrote
  | sets family =>
    cases wrote
    rcases family with family | family <;> rw [family]
  | exchanges exchange =>
    cases wrote
    rw [exchange]
    rfl
  | stores family address =>
    cases wrote
    rw [family, address]
    rfl
  | computes called =>
    cases wrote
    rw [family_of_calls called]

theorem Does.setIndex (does : m.Does i e) {n : Fin 8} {value : Int} (set : e.setIndex = some (n, value)) :
    i.mnemonic.family = .index ∧ n = i.accumulator := by
  cases does with
  | nothing | sets | stores | jumps | stays | computes | prints | stops => cases set
  | compares taken => cases taken <;> cases set
  | setsIndex family =>
    cases set
    exact ⟨family, rfl⟩
  | exchanges exchange =>
    cases set
    exact ⟨congrArg Mnemonic.family exchange, rfl⟩

theorem Does.print (does : m.Does i e) {text : String} (printed : e.print = some text) :
    ∃ r, m.Calls i r ∧ r.prints = true := by
  cases does with
  | nothing | sets | setsIndex | exchanges | stores | jumps | stays | computes | stops => cases printed
  | compares taken => cases taken <;> cases printed
  | prints called prints => exact ⟨_, called, prints⟩

/-! ## Steps -/

/-- Applying what an instruction does changes no more than that. -/
theorem framed_complete (does : m.Does i e) (supply : Supply) (name : String) :
    m.Framed i ((m.withSupply supply).complete name e) where
  room := size_apply (m.withSupply supply) e
  memory location other := by
    show (e.write.elim m.memory fun entry => m.memory.set entry.1 entry.2).get location = m.memory.get location
    cases wrote : e.write with
    | none => rfl
    | some entry =>
      obtain ⟨l, w⟩ := entry
      refine Memory.get_set_ne m.memory (fun same => ?_) w
      exact other (same ▸ does.write wrote)
  index n changed := by
    change (e.setIndex.elim m.index fun entry => m.index.set entry.1 entry.2).get n ≠ _ at changed
    cases set : e.setIndex with
    | none => simp [set] at changed
    | some entry =>
      obtain ⟨k, value⟩ := entry
      have mine := does.setIndex set
      have same : k = n := by
        by_contra different
        refine changed ?_
        have apart : k.val ≠ n.val := fun equal => different (Fin.ext equal)
        simp [set, Vector.get_eq_getElem, apart]
      exact ⟨mine.1, same ▸ mine.2⟩
  output grown := by
    change e.print.elim m.printed m.printed.push ≠ m.printed at grown
    cases printed : e.print with
    | none => simp [printed] at grown
    | some text =>
      obtain ⟨r, called, prints⟩ := does.print printed
      refine ⟨r, text, called, prints, ?_⟩
      show e.print.elim m.printed m.printed.push = m.printed.push text
      rw [printed]
      rfl
  counter := does.goesOn

theorem framed_of_completed (fetched : m.fetch = .ok i) (result : m.step = (next, none)) :
    m.Framed i next := by
  obtain ⟨sent, -, outcome⟩ := stepCase_of_step result
  cases outcome with
  | completed live again executed =>
    cases fetched.symm.trans again
    exact framed_complete (execute_does executed) _ _

/-- A completed step touches only what its instruction may touch. -/
theorem completed_step_framed (result : m.step = (next, none)) :
    ∃ i, m.fetch = .ok i ∧ m.Framed i next := by
  obtain ⟨i, fetched, -⟩ := trace_of_completed result
  exact ⟨i, fetched, framed_of_completed fetched result⟩

end

/-- A program that stores accumulator 1 through a pointer in location 9, which points at itself. -/
def pointingMachine : Machine where
  memory := ⟨(((Array.replicate 12 Word.zero).setIfInBounds 1 ⟨.integer, 5⟩).setIfInBounds 8
    ⟨.instruction, 0o50104011⟩).setIfInBounds 9 ⟨.integer, 9⟩, by decide⟩
  counter := 8

/-- The pointer is overwritten, and nothing else in memory. -/
theorem pointingMachine_framed :
    pointingMachine.step = (pointingMachine.step.1, none) ∧
    pointingMachine.step.1.memory.get 9 = ⟨.integer, 5⟩ ∧
    ∃ i, pointingMachine.fetch = .ok i ∧ pointingMachine.Framed i pointingMachine.step.1 := by
  have result : pointingMachine.step = (pointingMachine.step.1, none) := rfl
  exact ⟨result, by decide +kernel, completed_step_framed result⟩

/-- A word that no completed step of a session aims at is the same at its end. -/
theorem get_of_untargeted {start now : Machine} {moments : List Moment} (history : History start moments now)
    {location : Nat} (untargeted : ∀ x ∈ moments, x.before.target? x.instruction ≠ some location) :
    now.memory.get location = start.memory.get location := by
  induction history with
  | start => rfl
  | @completed moments m next i before fetched result ih =>
    have here := untargeted ⟨m, i, next⟩ (by simp)
    rw [(framed_of_completed fetched result).memory location here]
    exact ih fun x member => untargeted x (List.mem_append_left _ member)
  | uncompleted before result ih =>
    obtain ⟨sent, -, outcome⟩ := stepCase_of_step result
    cases outcome <;> exact ih untargeted
  | cancelled before live ih => exact ih untargeted

end WordMachine.Machine
