import WordMachine.Machine.State
import WordMachine.Proofs.Results

/-!
# Images and memories

An image says at most one word for each location, the last of its entries for it. A memory into which the
image is loaded has these words, and zero at every other location.
-/
namespace WordMachine

def Assembly.word? (a : Assembly) (location : Int) : Option Word :=
  a.image.reverse.lookup location

def Assembly.HasInstruction (a : Assembly) : Prop :=
  ∃ w ∈ a.words, w.word.isInstruction = true

/-- A run has somewhere to start exactly when there is an instruction. -/
theorem Assembly.isSome_entry_iff {a : Assembly} : a.entry.isSome = true ↔ a.HasInstruction := by
  rw [entry, Option.isSome_iff_ne_none, ne_eq, List.min?_eq_none_iff]
  simp [HasInstruction, List.filter_eq_nil_iff]

/-- No entry of an image is lost when no two have one location. -/
theorem Assembly.word?_of_mem {a : Assembly} {location : Int} {w : Word}
    (distinct : (a.image.map Prod.fst).Nodup) (member : (location, w) ∈ a.image) :
    a.word? location = some w := by
  obtain ⟨before, after, split⟩ := List.append_of_mem member
  have reversed : a.image.reverse = after.reverse ++ (location, w) :: before.reverse := by simp [split]
  refine List.lookup_eq_some_iff.mpr ⟨after.reverse, before.reverse, reversed, ?_⟩
  rintro ⟨other, v⟩ later
  rw [split, List.map_append, List.map_cons, List.nodup_append] at distinct
  have fresh := (List.nodup_cons.mp distinct.2.1).1
  rw [bne_iff_ne]
  rintro rfl
  exact fresh (List.mem_map.mpr ⟨(location, v), List.mem_reverse.mp later, rfl⟩)

namespace Memory

theorem write_of_inside {m : Memory} {location : Int} (w : Word)
    (inside : 0 ≤ location ∧ location < m.size) : m.write location w = .ok (m.set location.toNat w) := by
  have found : m.check location = .ok location.toNat := check_eq_ok_iff.mpr ⟨by omega, by omega⟩
  rw [write, found]
  rfl

theorem read_eq {m : Memory} {location : Int} (inside : 0 ≤ location ∧ location < m.size) :
    m.read location = .ok (m.get location.toNat) := by
  have found : m.check location = .ok location.toNat := check_eq_ok_iff.mpr ⟨by omega, by omega⟩
  rw [read, found]
  rfl

theorem get_blank {size : Int} {m : Memory} (blank : blank? size = some m) :
    m.size = size.toNat ∧ ∀ n, m.get n = Word.zero := by
  unfold blank? at blank
  split at blank
  · cases blank
    refine ⟨by simp [Memory.size], fun n => ?_⟩
    simp [get, Array.getD]
  · cases blank

/-- Words written one after the other: at each location the last one stays. -/
theorem foldlM_write {entries : List (Int × Word)} {m : Memory}
    (inside : ∀ entry ∈ entries, 0 ≤ entry.1 ∧ entry.1 < m.size) :
    ∃ after, entries.foldlM (fun (m : Memory) (location, w) => m.write location w) m = .ok after ∧
      after.size = m.size ∧
      ∀ n : Nat, n < m.size → after.get n = (entries.reverse.lookup (n : Int)).getD (m.get n) := by
  induction entries generalizing m with
  | nil => exact ⟨m, rfl, rfl, fun n _ => rfl⟩
  | cons entry rest ih =>
    obtain ⟨location, w⟩ := entry
    have here : 0 ≤ location ∧ location < m.size := inside (location, w) (by simp)
    have written := write_of_inside w here
    obtain ⟨after, loaded, size, reads⟩ := ih (m := m.set location.toNat w) fun other member => by
      rw [size_set]
      exact inside other (by simp [member])
    rw [size_set] at size reads
    refine ⟨after, ?_, size, fun n low => ?_⟩
    · rw [List.foldlM_cons]
      dsimp only
      rw [written]
      exact loaded
    · rw [reads n low, List.reverse_cons, List.lookup_append]
      cases later : rest.reverse.lookup (n : Int) with
      | some _ => rfl
      | none =>
        by_cases same : (n : Int) = location
        · subst same
          simp [List.lookup, get_set_self low]
        · have other : location.toNat ≠ n := by omega
          have apart : ((n : Int) == location) = false := by simpa using same
          simp [List.lookup, apart, get_set_ne m other]

/-- Words that could be written are inside. -/
theorem inside_of_foldlM_write {entries : List (Int × Word)} {m after : Memory}
    (loaded : entries.foldlM (fun (m : Memory) (location, w) => m.write location w) m = .ok after) :
    ∀ entry ∈ entries, 0 ≤ entry.1 ∧ entry.1 < m.size := by
  induction entries generalizing m with
  | nil => exact nofun
  | cons entry rest ih =>
    obtain ⟨next, written, loaded⟩ := bind_eq_ok_iff.mp loaded
    obtain ⟨n, found, rfl⟩ := map_eq_ok_iff.mp written
    obtain ⟨here, inside⟩ := check_eq_ok_iff.mp found
    have others := ih loaded
    rw [size_set] at others
    intro other member
    rcases List.mem_cons.mp member with rfl | member
    · omega
    · exact others other member

end Memory

namespace Machine

/-- A program fits every memory that has its locations and the accumulators. -/
theorem loadMemory_spec {a : Assembly} {size : Int} (room : 8 ≤ size)
    (inside : ∀ entry ∈ a.image, 0 ≤ entry.1 ∧ entry.1 < size) :
    ∃ m, loadMemory a size = .ok m ∧ (m.size : Int) = size ∧
      ∀ location, 0 ≤ location ∧ location < size →
        m.read location = .ok ((a.word? location).getD Word.zero) := by
  cases made : Memory.blank? size with
  | none =>
    unfold Memory.blank? at made
    split at made
    · cases made
    next small =>
      simp only [accumulatorCount] at small
      omega
  | some blank =>
    obtain ⟨same, zero⟩ := Memory.get_blank made
    have room : ∀ entry ∈ a.image, 0 ≤ entry.1 ∧ entry.1 < blank.size := fun entry member => by
      have bounds := inside entry member
      omega
    obtain ⟨m, loaded, kept, reads⟩ := Memory.foldlM_write room
    refine ⟨m, ?_, by omega, fun location bounds => ?_⟩
    · simp only [loadMemory, made, loaded]
      rfl
    · rw [Memory.read_eq (by omega), reads _ (by omega), zero, Int.toNat_of_nonneg bounds.1]
      rfl

/-- A memory that a program was loaded into has its size and every location of the program. -/
theorem loadMemory_ok {a : Assembly} {size : Int} {m : Memory} (loaded : loadMemory a size = .ok m) :
    (m.size : Int) = size ∧ ∀ entry ∈ a.image, 0 ≤ entry.1 ∧ entry.1 < size := by
  unfold loadMemory at loaded
  cases made : Memory.blank? size with
  | none =>
    rw [made] at loaded
    cases loaded
  | some blank =>
    rw [made] at loaded
    have filled := mapError_eq_ok_iff.mp loaded
    have inside := Memory.inside_of_foldlM_write filled
    obtain ⟨after, again, same, -⟩ := Memory.foldlM_write inside
    obtain rfl : after = m := Except.ok.inj (again.symm.trans filled)
    have room := (Memory.get_blank made).1
    have least : accumulatorCount ≤ blank.size := blank.holds_accumulators
    have whole : (blank.size : Int) = size := by
      unfold accumulatorCount at least
      omega
    rw [whole] at inside
    exact ⟨by omega, inside⟩

/-- A memory without room for the accumulators holds no program. -/
theorem loadMemory_of_small (a : Assembly) {size : Int} (small : size < 8) :
    loadMemory a size = .error (.tooSmall size) := by
  have none : Memory.blank? size = none := by
    rw [Memory.blank?, dif_neg]
    simp only [accumulatorCount]
    omega
  simp only [loadMemory, none]

end Machine

end WordMachine
