import Mathlib
import WordMachine.Command.Build

/-!
# What work comes to

Work ends with a result, stops the command, or has no end within the patience. `Comes` says what is known in
each of the three cases, and is composed as the work is: what stops the first part of some work stops all
of it.
-/
namespace WordMachine.Command

open Files

variable {α β : Type}

/-- The result of work and the progress it leaves; none if the patience is exhausted. -/
def outcome (work : Work α) (p : Progress) : Option (Except Abort α × Progress) :=
  work.run.run p

/-- Work that starts at `p` ends well, or stops for a reason, or has no end. -/
def Comes (work : Work α) (p : Progress) (good : α → Progress → Prop) (stops : Abort → Prop)
    (endless : Prop) : Prop :=
  match outcome work p with
  | some (.ok a, after) => good a after
  | some (.error a, _) => stops a
  | none => endless

section

variable {work : Work α} {next : α → Work β} {p : Progress} {good : α → Progress → Prop}
  {fine : β → Progress → Prop} {stops : Abort → Prop} {endless : Prop}

/-- Work goes on after its first part unless that part has stopped it, or has no end. -/
theorem outcome_bind : outcome (work >>= next) p =
    match outcome work p with
    | some (.ok a, q) => outcome (next a) q
    | some (.error a, q) => some (.error a, q)
    | none => none := by
  have parts : outcome (work >>= next) p =
      (outcome work p).bind fun (result, q) => ExceptT.bindCont next result q := rfl
  rw [parts]
  match outcome work p with
  | some (.ok a, q) => rfl
  | some (.error a, q) => rfl
  | none => rfl

/-- Work after other work goes on from where that ended well. -/
theorem Comes.bind (first : Comes work p good stops endless)
    (goesOn : ∀ a q, good a q → Comes (next a) q fine stops endless) :
    Comes (work >>= next) p fine stops endless := by
  unfold Comes at first ⊢
  rw [outcome_bind]
  match result : outcome work p with
  | some (.ok a, q) =>
    rw [result] at first
    exact goesOn a q first
  | some (.error a, q) =>
    rw [result] at first
    exact first
  | none =>
    rw [result] at first
    exact first

/-- Work that comes to something comes to anything wider. -/
theorem Comes.weaken {good' : α → Progress → Prop} {stops' : Abort → Prop} {endless' : Prop}
    (known : Comes work p good stops endless) (ok : ∀ a q, good a q → good' a q)
    (error : ∀ a, stops a → stops' a) (none : endless → endless') : Comes work p good' stops' endless' := by
  unfold Comes at known ⊢
  match result : outcome work p with
  | some (.ok a, q) =>
    rw [result] at known
    exact ok a q known
  | some (.error a, q) =>
    rw [result] at known
    exact error a known
  | .none =>
    rw [result] at known
    exact none known

theorem comes_pure {a : α} (h : good a p) : Comes (pure a) p good stops endless :=
  h

theorem comes_throw {a : Abort} (h : stops a) : Comes (throw a : Work α) p good stops endless :=
  h

theorem comes_modify {f : Progress → Progress} {good : Unit → Progress → Prop} (h : good () (f p)) :
    Comes (modify f : Work Unit) p good stops endless :=
  h

theorem comes_get_bind {next : Progress → Work β} (h : Comes (next p) p fine stops endless) :
    Comes (get >>= next) p fine stops endless :=
  h

theorem comes_modify_bind {f : Progress → Progress} {next : Unit → Work β}
    (h : Comes (next ()) (f p) fine stops endless) : Comes (modify f >>= next) p fine stops endless :=
  h

theorem comes_orStop_bind {ε : Type} {abort : ε → Abort} {result : Except ε α}
    (ok : ∀ a, result = .ok a → Comes (next a) p fine stops endless)
    (error : ∀ e, result = .error e → stops (abort e)) :
    Comes (orStop abort result >>= next) p fine stops endless := by
  cases result with
  | ok a => exact ok a rfl
  | error e => exact error e rfl

end

end WordMachine.Command
