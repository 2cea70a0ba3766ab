import WordMachine.Proofs.Layout.FirstPass
import WordMachine.Proofs.Source.Parsed

/-!
# Labels and the literal table

What the second pass looks up in the layout of a placed file: a label gives the location of the line that
defines it, and a constant operand the slot of its key. So an operand is resolved to the location that it
names in the plan.
-/
namespace WordMachine

open Source

/-- The location that an operand names in a program: zero if there is none, the written number, the location
of the line with the label, or the slot of the constant, counted down from the top of memory. -/
inductive Names (settings : AssemblySettings) (lines : List Line) : Option Operand → Int → Prop
  | absent : Names settings lines none 0
  | number (n : Nat) (index : Option Nat) (indirect : Bool) (column : Nat) :
    Names settings lines (some (.address ⟨.location n, index, indirect, column⟩)) n
  | label {line : Line} {here : Int} {name : String} (index : Option Nat) (indirect : Bool)
      (column : Nat) (place : (line, here) ∈ planned settings.origin lines)
      (defined : line.label = some name) :
    Names settings lines (some (.address ⟨.label name, index, indirect, column⟩)) here
  | literal {c : Constant} {i : Nat} (column : Nat) (slot : (literalKeys lines)[i]? = some c.key) :
    Names settings lines (some (.constant c column)) (settings.memorySize - 1 - i)

namespace Layout

variable {settings : AssemblySettings} {lines : List Line}

/-! ## Labels -/

theorem lookup_labels {α : Type} (labels : List LabelBinding) (about : LabelBinding → α) (name : String) :
    (labels.map fun b => (b.name, about b)).lookup name = (labels.find? (·.name == name)).map about := by
  induction labels with
  | nil => rfl
  | cons b rest ih =>
    rw [List.map_cons, List.lookup_cons, List.find?_cons, BEq.comm]
    cases b.name == name with
    | true => rfl
    | false => exact ih

theorem lookup_labelTable (l : Layout) (name : String) :
    l.labelTable.lookup name = (l.binding? name).map (·.location) :=
  lookup_labels l.labels LabelBinding.location name

/-- A label is bound to the location of its line. -/
theorem mem_labels_ofPlan {b : LabelBinding} (member : b ∈ (ofPlan settings lines).labels) :
    ∃ line, (line, b.location) ∈ planned settings.origin lines ∧ line.label = some b.name := by
  obtain ⟨⟨line, here⟩, place, bound⟩ := List.mem_flatMap.mp member
  obtain ⟨name, defined, rfl⟩ := List.mem_map.mp bound
  exact ⟨line, place, by simpa using defined⟩

/-- The label of a line is bound to the location of the line. -/
theorem binding?_ofPlan (distinct : (labelNames lines).Nodup) {line : Line} {here : Int} {name : String}
    (place : (line, here) ∈ planned settings.origin lines) (defined : line.label = some name) :
    (ofPlan settings lines).binding? name = some ⟨name, here, line.site 1⟩ := by
  have member : ⟨name, here, line.site 1⟩ ∈ (ofPlan settings lines).labels :=
    List.mem_flatMap.mpr ⟨(line, here), place, List.mem_map.mpr ⟨name, by simp [defined], rfl⟩⟩
  rw [← map_name_labels settings] at distinct
  cases found : (ofPlan settings lines).binding? name with
  | none =>
    have absent := List.find?_eq_none.mp found _ member
    simp at absent
  | some b =>
    have same : b.name = name := by simpa using List.find?_some found
    rw [List.inj_on_of_nodup_map distinct (List.mem_of_find?_eq_some found) member same]

/-! ## The literal table -/

/-- Constants of one key get one slot, so the keys of the table are those of the constants, each once. -/
theorem map_key_foldl_allocate {constants : List Constant} (fits : ∀ c ∈ constants, c.Fits) :
    (constants.foldl allocate []).map Constant.key = (constants.map Constant.key).eraseDups ∧
    ∀ c ∈ constants.foldl allocate [], c ∈ constants := by
  induction constants using List.reverseRecOn with
  | nil => simp
  | append_singleton constants c ih =>
    obtain ⟨keys, origin⟩ := ih fun d member => fits d (List.mem_append_left _ member)
    have known : (constants.foldl allocate []).any (c.same ·) = true ↔
        c.key ∈ constants.map Constant.key := by
      rw [← List.mem_eraseDups, ← keys, List.any_eq_true, List.mem_map]
      constructor
      · rintro ⟨d, member, same⟩
        have fit := fits d (List.mem_append_left _ (origin d member))
        exact ⟨d, member, ((Constant.same_iff_key_eq (fits c (by simp)) fit).mp same).symm⟩
      · rintro ⟨d, member, same⟩
        have fit := fits d (List.mem_append_left _ (origin d member))
        exact ⟨d, member, (Constant.same_iff_key_eq (fits c (by simp)) fit).mpr same.symm⟩
    rw [List.foldl_append, List.map_append, List.map_singleton, eraseDups_concat]
    simp only [List.foldl_cons, List.foldl_nil, allocate, known]
    split
    · exact ⟨keys, fun d member => List.mem_append_left _ (origin d member)⟩
    · refine ⟨by rw [List.map_append, keys, List.map_singleton], fun d member => ?_⟩
      rcases List.mem_append.mp member with earlier | new
      · exact List.mem_append_left _ (origin d earlier)
      · exact List.mem_append_right _ new

theorem constantOperand_fits (admitted : ∀ line ∈ lines, line.Admitted) {c : Constant}
    (member : c ∈ constantOperands lines) : c.Fits := by
  obtain ⟨s, found, column, operand⟩ := exists_statement_of_mem_constantOperands member
  obtain ⟨line, place, content⟩ := mem_statements.mp found
  exact (admitted line place _ content).1 c column operand

theorem map_key_literals (settings : AssemblySettings) (admitted : ∀ line ∈ lines, line.Admitted) :
    (ofPlan settings lines).literals.map Constant.key = literalKeys lines :=
  (map_key_foldl_allocate fun _ => constantOperand_fits admitted).1

theorem literal_fits (admitted : ∀ line ∈ lines, line.Admitted) {c : Constant}
    (member : c ∈ (ofPlan settings lines).literals) : c.Fits :=
  constantOperand_fits admitted
    ((map_key_foldl_allocate fun _ => constantOperand_fits admitted).2 c member)

theorem length_literals (admitted : ∀ line ∈ lines, line.Admitted) :
    (ofPlan settings lines).literals.length = (literalKeys lines).length := by
  rw [← map_key_literals settings admitted, List.length_map]

/-- A constant operand has the slot of its key. -/
theorem slotOf?_ofPlan (admitted : ∀ line ∈ lines, line.Admitted) {c : Constant} {i : Nat}
    (fits : c.Fits) (found : (literalKeys lines)[i]? = some c.key) :
    (ofPlan settings lines).slotOf? settings c = some (slot settings i) := by
  have distinct : ((ofPlan settings lines).literals.map Constant.key).Nodup := by
    rw [map_key_literals settings admitted]
    exact nodup_eraseDups _
  rw [← map_key_literals settings admitted, List.getElem?_map] at found
  obtain ⟨d, place, key⟩ := Option.map_eq_some_iff.mp found
  obtain ⟨inside, rfl⟩ := List.getElem?_eq_some_iff.mp place
  have index : (ofPlan settings lines).literals.findIdx? (c.same ·) = some i := by
    rw [List.findIdx?_eq_some_iff_getElem]
    refine ⟨inside, ?_, fun j earlier same => ?_⟩
    · exact (Constant.same_iff_key_eq fits (literal_fits admitted (List.getElem_mem _))).mpr key.symm
    · have equal := (Constant.same_iff_key_eq fits
        (literal_fits admitted (List.getElem_mem _))).mp same
      have size : ((ofPlan settings lines).literals.map Constant.key).length =
        (ofPlan settings lines).literals.length := List.length_map _
      have high : i < ((ofPlan settings lines).literals.map Constant.key).length := by omega
      have low : j < ((ofPlan settings lines).literals.map Constant.key).length := by omega
      have clash : ((ofPlan settings lines).literals.map Constant.key)[j] =
          ((ofPlan settings lines).literals.map Constant.key)[i] := by
        rw [List.getElem_map, List.getElem_map, key, equal]
      have := distinct.getElem_inj_iff.mp clash
      omega
  rw [slotOf?, index]
  rfl

/-- Every constant operand has a slot. -/
theorem exists_slot {c : Constant} (member : c ∈ constantOperands lines) :
    ∃ i : Nat, (literalKeys lines)[i]? = some c.key := by
  have key : c.key ∈ literalKeys lines := List.mem_eraseDups.mpr (List.mem_map_of_mem member)
  exact List.getElem?_of_mem key

/-! ## Operands -/

theorem mem_labelNames_iff {name : String} :
    name ∈ labelNames lines ↔ ∃ line here, (line, here) ∈ planned settings.origin lines ∧
      line.label = some name := by
  constructor
  · intro member
    obtain ⟨line, place, defined⟩ := List.mem_filterMap.mp member
    obtain ⟨here, place⟩ := exists_planned_of_mem settings.origin place
    exact ⟨line, here, place, defined⟩
  · rintro ⟨line, here, place, defined⟩
    exact List.mem_filterMap.mpr ⟨line, mem_of_mem_planned place, defined⟩

/-- An operand names some location unless its label is not defined. -/
theorem exists_names (settings : AssemblySettings) {s : Statement} (member : s ∈ statements lines)
    (defined : ∀ name, s.symbol? = some name → name ∈ labelNames lines) :
    ∃ address, Names settings lines s.operand address := by
  cases operand : s.operand with
  | none => exact ⟨0, .absent⟩
  | some written =>
    rcases written with ⟨name | n, index, indirect, column⟩ | ⟨c, column⟩
    · have symbol : s.symbol? = some name := by simp [Statement.symbol?, operand]
      obtain ⟨line, here, place, label⟩ := mem_labelNames_iff.mp (defined name symbol)
      exact ⟨here, .label index indirect column place label⟩
    · exact ⟨n, .number n index indirect column⟩
    · obtain ⟨i, slot⟩ := exists_slot (mem_constantOperands member operand)
      exact ⟨_, .literal column slot⟩

theorem symbol_defined_of_names {s : Statement} {address : Int} {name : String}
    (named : Names settings lines s.operand address) (symbol : s.symbol? = some name) :
    name ∈ labelNames lines := by
  unfold Statement.symbol? at symbol
  cases operand : s.operand with
  | none => simp [operand] at symbol
  | some operand =>
    rw [operand] at named symbol
    cases named with
    | number => cases symbol
    | literal => cases symbol
    | label index indirect column place defined =>
      cases symbol
      exact mem_labelNames_iff.mpr ⟨_, _, place, defined⟩

/-- The second pass resolves an operand to the location that it names. -/
theorem resolve_ofPlan_iff (distinct : (labelNames lines).Nodup)
    (admitted : ∀ line ∈ lines, line.Admitted) {s : Statement} (member : s ∈ statements lines)
    {address : Int} :
    (∃ column, Encoding.resolve settings (ofPlan settings lines) s.operand = .ok (address, column)) ↔
      Names settings lines s.operand address := by
  cases operand : s.operand with
  | none =>
    constructor
    · rintro ⟨column, resolved⟩
      cases resolved
      exact .absent
    · rintro ⟨⟩
      exact ⟨_, rfl⟩
  | some written =>
    rcases written with ⟨name | n, index, indirect, column⟩ | ⟨c, column⟩
    · constructor
      · rintro ⟨column, resolved⟩
        simp only [Encoding.resolve] at resolved
        split at resolved
        next b bound =>
          cases resolved
          obtain ⟨line, place, defined⟩ := mem_labels_ofPlan (List.mem_of_find?_eq_some bound)
          have same : b.name = name := by simpa using List.find?_some bound
          exact .label _ _ _ place (same ▸ defined)
        · cases resolved
      · rintro (_ | _ | ⟨_, _, _, place, defined⟩)
        exact ⟨column, by simp only [Encoding.resolve, binding?_ofPlan distinct place defined]⟩
    · constructor
      · rintro ⟨column, resolved⟩
        cases resolved
        exact .number _ _ _ _
      · rintro ⟨⟩
        exact ⟨_, rfl⟩
    · have mine := mem_constantOperands member operand
      have fits := constantOperand_fits admitted mine
      constructor
      · rintro ⟨column, resolved⟩
        obtain ⟨i, slot⟩ := exists_slot mine
        simp only [Encoding.resolve, slotOf?_ofPlan admitted fits slot] at resolved
        cases resolved
        exact .literal _ slot
      · rintro (_ | _ | _ | ⟨_, slot⟩)
        exact ⟨column, by simp only [Encoding.resolve, slotOf?_ofPlan admitted fits slot]; rfl⟩

end Layout

end WordMachine
