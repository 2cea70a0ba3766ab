import WordMachine.Proofs.Assembly.Image
import WordMachine.Proofs.Layout.Acceptance

/-!
# The assembly of a well-formed program

Its words have the locations of the plan in rising order, its literals fill the top of memory downwards, and
the two do not meet. A program has no more literals than words, so the literals take at most the upper half
of the memory.
-/
namespace WordMachine

open Source

variable {settings : AssemblySettings} {lines : List Line} {file : String}

/-! ## Words -/

/-- The words of an assembly are those of the planned lines. -/
theorem mem_words_assembled {x : AssembledWord} : x ∈ (assembled settings lines file).words ↔
    ∃ line here, (line, here) ∈ planned settings.origin lines ∧
      x ∈ Encoding.wordsOf settings (Layout.ofPlan settings lines) line here := by
  simp only [assembled, List.mem_mergeSort, List.mem_flatMap, Prod.exists]

theorem mem_wordsOf {l : Layout} {line : Line} {here : Int} {x : AssembledWord} :
    x ∈ Encoding.wordsOf settings l line here ↔ ∃ c w, line.content = some c ∧
      Encoding.content settings l line c = .ok w ∧ x = ⟨here, w, line.number⟩ := by
  unfold Encoding.wordsOf
  cases present : line.content with
  | none => simp
  | some c =>
    cases encoded : Encoding.content settings l line c <;> simp [encoded, Except.toOption]

theorem map_location_wordsOf {l : Layout} {line : Line} {here : Int}
    (fine : Encoding.HasWord settings l line) :
    (Encoding.wordsOf settings l line here).map (·.location) = if line.emits then [here] else [] := by
  unfold Encoding.wordsOf
  cases present : line.content with
  | none => simp [Line.emits, present]
  | some c =>
    obtain ⟨w, encoded⟩ := fine c present
    simp [Line.emits, present, encoded, Except.toOption]

theorem map_location_flatMap {l : Layout} {entries : List (Line × Int)}
    (fine : ∀ entry ∈ entries, Encoding.HasWord settings l entry.1) :
    (entries.flatMap fun (line, here) => Encoding.wordsOf settings l line here).map (·.location) =
      entries.filterMap fun (line, here) => if line.emits then some here else none := by
  induction entries with
  | nil => rfl
  | cons entry rest ih =>
    rw [List.flatMap_cons, List.map_append, List.filterMap_cons,
      ih fun other member => fine other (by simp [member])]
    dsimp only
    rw [map_location_wordsOf (fine entry (by simp))]
    split <;> rfl

section

variable (admitted : ∀ line ∈ lines, line.Admitted) (formed : WellFormed settings lines)
include admitted formed

theorem hasWord_of_wellFormed {line : Line} (member : line ∈ lines) :
    Encoding.HasWord settings (Layout.ofPlan settings lines) line :=
  (hasWord_iff formed.labels_distinct admitted).mpr formed.statements line member

theorem locations_perm :
    ((assembled settings lines file).words.map (·.location)).Perm
      (wordLocations settings.origin lines) := by
  have sorted := (List.mergeSort_perm ((planned settings.origin lines).flatMap fun (line, here) =>
    Encoding.wordsOf settings (Layout.ofPlan settings lines) line here)
    fun a b => decide (a.location ≤ b.location)).map (·.location)
  rw [map_location_flatMap fun entry member =>
    hasWord_of_wellFormed admitted formed (mem_of_mem_planned member)] at sorted
  exact sorted

/-- No location comes twice, and the lowest comes first. -/
theorem locations_increase :
    ((assembled settings lines file).words.map (·.location)).Pairwise (· < ·) := by
  have distinct : ((assembled settings lines file).words.map (·.location)).Nodup :=
    (locations_perm admitted formed).nodup_iff.mpr formed.locations_distinct
  have ordered : ((assembled settings lines file).words.map (·.location)).Pairwise (· ≤ ·) := by
    rw [List.pairwise_map]
    refine (List.pairwise_mergeSort ?_ ?_ _).imp of_decide_eq_true
    · intro a b c first second
      simp only [decide_eq_true_eq] at first second ⊢
      omega
    · intro a b
      simp only [Bool.or_eq_true, decide_eq_true_eq]
      omega
  exact (ordered.and distinct).imp fun both => lt_of_le_of_ne both.1 both.2

/-- The words stay below the literals. -/
theorem location_bounds {x : AssembledWord} (member : x ∈ (assembled settings lines file).words) :
    0 ≤ x.location ∧ x.location < settings.memorySize - (literalKeys lines).length := by
  have place : x.location ∈ wordLocations settings.origin lines :=
    (locations_perm admitted formed).mem_iff.mp (List.mem_map_of_mem member)
  exact ⟨(formed.locations_inside _ place).1, formed.below_literals _ place⟩

end

/-! ## Literals -/

theorem length_literals_assembled (admitted : ∀ line ∈ lines, line.Admitted) :
    (assembled settings lines file).literals.length = (literalKeys lines).length := by
  simp only [assembled, List.length_mapIdx]
  exact Layout.length_literals admitted

theorem map_fst_literals (admitted : ∀ line ∈ lines, line.Admitted) :
    (assembled settings lines file).literals.map Prod.fst =
      (List.range (literalKeys lines).length).map fun i : Nat => settings.memorySize - 1 - i := by
  apply List.ext_getElem
  · simp [length_literals_assembled admitted]
  · intro i low high
    simp [assembled, Layout.slot]

/-- The slot of a constant operand holds its word. -/
theorem literal_of_key (admitted : ∀ line ∈ lines, line.Admitted) {c : Constant} (fits : c.Fits) {i : Nat}
    (slot : (literalKeys lines)[i]? = some c.key) :
    (settings.memorySize - 1 - i, c.stored) ∈ (assembled settings lines file).literals := by
  rw [← Layout.map_key_literals settings admitted, List.getElem?_map] at slot
  obtain ⟨d, place, key⟩ := Option.map_eq_some_iff.mp slot
  have same := Constant.stored_eq_of_key_eq
    (Layout.literal_fits admitted (List.mem_of_getElem? place)) fits key
  refine List.mem_of_getElem? (i := i) ?_
  simp only [assembled, List.getElem?_mapIdx, place, Option.map_some, Layout.slot, same]

/-- The literals stand at the top of memory. -/
theorem slot_bounds (admitted : ∀ line ∈ lines, line.Admitted) {entry : Int × Word}
    (member : entry ∈ (assembled settings lines file).literals) :
    settings.memorySize - (literalKeys lines).length ≤ entry.1 ∧ entry.1 ≤ settings.memorySize - 1 := by
  have place := List.mem_map_of_mem (f := Prod.fst) member
  rw [map_fst_literals admitted] at place
  obtain ⟨i, low, slot⟩ := List.mem_map.mp place
  have inside := List.mem_range.mp low
  omega

/-! ## Counting -/

theorem length_eraseDups_le {α : Type} [BEq α] [LawfulBEq α] (xs : List α) :
    xs.eraseDups.length ≤ xs.length := by
  induction xs using List.reverseRecOn with
  | nil => simp
  | append_singleton xs x ih =>
    rw [eraseDups_concat]
    split
    · rw [List.length_append]
      omega
    · simpa using ih

/-- Each literal stands in a word of its own. -/
theorem length_literalKeys_le (settings : AssemblySettings) (lines : List Line) :
    (literalKeys lines).length ≤ (wordLocations settings.origin lines).length := by
  have words : (wordLocations settings.origin lines).length = lines.countP (·.emits) := by
    conv_rhs => rw [← map_fst_planned settings.origin lines, List.countP_map]
    rw [wordLocations, List.length_filterMap_eq_countP]
    congr 1
    funext entry
    cases emits : entry.1.emits <;> simp [emits]
  have constants : (constantOperands lines).length ≤ lines.countP (·.emits) := by
    rw [constantOperands, List.length_filterMap_eq_countP]
    refine List.countP_mono_left fun line _ literal => ?_
    rw [Line.emits]
    cases present : line.content with
    | none => simp [present] at literal
    | some c => rfl
  have distinct := length_eraseDups_le ((constantOperands lines).map Constant.key)
  rw [List.length_map] at distinct
  rw [words]
  exact distinct.trans constants

/-- The literal table takes at most the upper half of memory. -/
theorem two_mul_literals_le (formed : WellFormed settings lines) :
    2 * ((literalKeys lines).length : Int) ≤ max settings.memorySize 0 := by
  have bounded : (wordLocations settings.origin lines).toFinset ⊆
      Finset.Ico 0 (settings.memorySize - (literalKeys lines).length) := by
    intro here member
    rw [List.mem_toFinset] at member
    exact Finset.mem_Ico.mpr ⟨(formed.locations_inside here member).1, formed.below_literals here member⟩
  have count := Finset.card_le_card bounded
  rw [List.toFinset_card_of_nodup formed.locations_distinct, Int.card_Ico] at count
  have fewer := length_literalKeys_le settings lines
  omega

/-! ## The image -/

section

variable (admitted : ∀ line ∈ lines, line.Admitted) (formed : WellFormed settings lines)
include admitted formed

/-- No two entries of the image have one location. -/
theorem image_distinct : ((assembled settings lines file).image.map Prod.fst).Nodup := by
  rw [Assembly.image, List.map_append, List.nodup_append]
  refine ⟨?_, ?_, ?_⟩
  · rw [map_fst_literals admitted]
    refine List.Nodup.map_on (fun i _ j _ same => ?_) List.nodup_range
    omega
  · rw [List.map_map]
    exact (locations_perm admitted formed).nodup_iff.mpr formed.locations_distinct
  · intro slot literal here word same
    obtain ⟨entry, allocated, rfl⟩ := List.mem_map.mp literal
    obtain ⟨placed, member, rfl⟩ := List.mem_map.mp word
    obtain ⟨x, stands, rfl⟩ := List.mem_map.mp member
    have high := (slot_bounds admitted allocated).1
    have low := (location_bounds admitted formed stands).2
    dsimp only at same
    omega

/-- No program word is at the slot of a literal, so the image has the literal there. -/
theorem word?_of_literal {slot : Int} {w : Word}
    (allocated : (slot, w) ∈ (assembled settings lines file).literals) :
    (assembled settings lines file).word? slot = some w :=
  Assembly.word?_of_mem (image_distinct admitted formed) (List.mem_append_left _ allocated)

/-- The image has the word that the second pass makes of a line. -/
theorem word?_of_planned {line : Line} {here : Int} {c : Content}
    (place : (line, here) ∈ planned settings.origin lines) (present : line.content = some c) :
    ∃ w, Encoding.content settings (Layout.ofPlan settings lines) line c = .ok w ∧
      (assembled settings lines file).word? here = some w := by
  obtain ⟨w, encoded⟩ :=
    hasWord_of_wellFormed admitted formed (mem_of_mem_planned place) c present
  have stands : ⟨here, w, line.number⟩ ∈ (assembled settings lines file).words :=
    mem_words_assembled.mpr ⟨line, here, place, mem_wordsOf.mpr ⟨c, w, present, encoded, rfl⟩⟩
  exact ⟨w, encoded, Assembly.word?_of_mem (image_distinct admitted formed)
    (List.mem_append_right _ (List.mem_map.mpr ⟨_, stands, rfl⟩))⟩

end

end WordMachine
