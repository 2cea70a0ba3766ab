import WordMachine.Proofs.Machine.Limit

/-!
# How a run ends

The run of a loaded machine up to a limit halts, faults, is cancelled, or is broken off by something other
than a fault: an input word that is no number, or a reason that is too long to be written. A program without
instructions has ended before it runs, and stopped nowhere.
-/
namespace WordMachine.Machine

/-- The machine and the trouble at the end of a run. -/
inductive RunEnd (m : Machine) : Machine → Option Trouble → Prop where
  | nowhere (empty : m.status = .halted none) : RunEnd m m none
  | halted {after : Machine} {location : Int} (status : after.status = .halted (some location)) :
    RunEnd m after none
  | cancelled {after : Machine} (status : after.status = .cancelled) : RunEnd m after none
  | faulted {after : Machine} {f : Fault} (status : after.status = .faulted f) :
    RunEnd m after (some (.fault f))
  | brokenOff {after : Machine} {trouble : Trouble}
      (outside : (∃ word, trouble = .unreadable word) ∨ trouble = .unwritable) :
    RunEnd m after (some trouble)

/-- The step that ends a run ends it in one of these ways. -/
theorem runEnd_of_ends {m last : Machine} (live : last.status.isTerminal = false) (ends : last.Ends) :
    RunEnd m last.step.1 last.step.2 := by
  cases result : last.step with
  | mk next trouble =>
    obtain ⟨sent, -, outcome⟩ := stepCase_of_step result
    cases outcome with
    | refused ended =>
      rw [live] at ended
      cases ended
    | completed =>
      have terminal := ends.terminal result
      rcases status_of_completed result with running | halted
      · rw [running] at terminal
        cases terminal
      · exact .halted halted
    | faulted => exact .faulted rfl
    | interrupted _ _ outside => exact .brokenOff outside

theorem runEnd_of_live {m : Machine} (live : m.status.isTerminal = false) (limit : Nat) :
    RunEnd m (m.run limit).1 (m.run limit).2 := by
  rcases lasts_or_ends live (limit - m.steps) with ⟨next, lasts⟩ | ⟨k, below, last, lasts, ends⟩
  · rw [run_of_lasts live lasts]
    exact .cancelled rfl
  · rw [run_of_ends live lasts ends below]
    exact runEnd_of_ends lasts.live ends

theorem runEnd_of_load {assembly : Assembly} {size : Int} {supply : Supply} {traced : Bool} {m : Machine}
    (loaded : Machine.load assembly size supply traced = .ok m) (limit : Nat) :
    RunEnd m (m.run limit).1 (m.run limit).2 := by
  obtain ⟨memory, -, made⟩ := bind_eq_ok_iff.mp loaded
  cases present : assembly.entry.isSome with
  | true =>
    have ready : m.status = .ready := by
      cases made
      simp [present]
    exact runEnd_of_live (by rw [ready]; rfl) limit
  | false =>
    have empty : m.status = .halted none := by
      cases made
      simp [present]
    have ended : m.run limit = (m, none) := by simp [run, isEmpty, empty]
    rw [ended]
    exact .nowhere empty

/-- A patient run is a run with some limit. -/
theorem exists_run_of_runPatiently {m : Machine} {result : Machine × Option Trouble} {patience : Nat}
    {limit : Option Nat} (ended : m.runPatiently? patience limit = some result) : ∃ count, m.run count = result := by
  have finished {count : Nat} (whole : runPatiently?.finished? (m.run count) = some result) :
      m.run count = result := by
    unfold runPatiently?.finished? at whole
    split at whole
    · cases whole
    · exact Option.some.inj whole
  unfold runPatiently? at ended
  dsimp only at ended
  split at ended
  next n =>
    split at ended
    · exact ⟨n, Option.some.inj ended⟩
    · exact ⟨_, finished ended⟩
  · exact ⟨_, finished ended⟩

theorem runEnd_of_runPatiently {assembly : Assembly} {size : Int} {supply : Supply} {traced : Bool}
    {m after : Machine} {trouble : Option Trouble} {patience : Nat} {limit : Option Nat}
    (loaded : Machine.load assembly size supply traced = .ok m)
    (result : m.runPatiently? patience limit = some (after, trouble)) : RunEnd m after trouble := by
  obtain ⟨count, run⟩ := exists_run_of_runPatiently result
  have ending := runEnd_of_load loaded count
  rwa [run] at ending

end WordMachine.Machine
