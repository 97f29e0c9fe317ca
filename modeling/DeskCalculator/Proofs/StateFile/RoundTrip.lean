import DeskCalculator.Proofs.Decimal.Scientific
import DeskCalculator.Proofs.Json.RoundTrip
import DeskCalculator.Proofs.Value.Text
import DeskCalculator.StateFile.Reader

/-!
# The state file round trip

What is written into the state file is read from it again: the settings, both registers with every
particular, and the history in its order (`read_of_write`), for a history of pairs of texts
(`read_write`). A value can be stored if its text can be read back: an integer that is not too long,
or a decimal that fits the widest range of exponents.
-/

namespace DeskCalculator

/-- A value that is read back from the state file. -/
def Value.IsStorable : Value → Prop
  | .exact n => ¬ Text.Integer.isTooLong n
  | .decimal d => d.IsStorable

/-- A desk that is read back from the state file: its switch is a truth value. -/
structure Desk.IsStorable (desk : Desk) : Prop where
  exact : ∃ b, desk.exact = .truth b
  answer : desk.answer.IsStorable
  memory : desk.memory.IsStorable

namespace StateFile

variable {desk : Desk} {history : List Entry} {t : Text}

structure Entry.IsRegular (entry : Entry) : Prop where
  expression : entry.expression.IsRegular
  result : entry.result.IsRegular

theorem Entry.isRegular_ofTexts (expression result : Text) :
    (Entry.ofTexts expression result).IsRegular := ⟨.string _, .string _⟩

/-! ## Bytes -/

theorem ofBytes_toUTF8 (t : Text) : Source.ofBytes t.toString.toUTF8 = .contents t := by
  have hvalid : t.toString.toUTF8.IsValidUTF8 := t.toString.isValidUTF8
  rw [Source.ofBytes, String.fromUTF8?, dif_pos hvalid]
  exact congrArg Source.contents String.toList_ofList

/-! ## Values -/

theorem readValue_ofValue {v : Value} (h : v.IsStorable) :
    ∃ json, ofValue v = .ok json ∧ json.IsRegular ∧ readValue json = .ok v := by
  cases v with
  | exact n =>
    refine ⟨.object [(Text.ofString "exact", .string (Text.ofInt n))], ?_, ?_, ?_⟩
    · simp [ofValue, Value.text, Text.Integer.write?, Value.IsStorable] at h ⊢
      simp [h, Except.map, valueKey]
    · exact .object (by simp) (by simp [Json.IsRegular.string])
    · show (readExact (.string (Text.ofInt n))).map Value.exact = _
      rw [readExact, Text.Integer.read?_ofInt h]
      rfl
  | decimal d =>
    refine ⟨.object [(Text.ofString "decimal", .string d.text)], rfl, ?_, ?_⟩
    · exact .object (by simp) (by simp [Json.IsRegular.string])
    · show (readDecimal (.string d.text)).map Value.decimal = _
      rw [readDecimal, Decimal.read?_text h]
      rfl

/-! ## Settings and history -/

theorem clamp_digits (p : Precision) : Precision.clamp p.digits = p := by
  have := p.min_le
  have := p.le_max
  cases p
  simp only [Precision.clamp, Precision.mk.injEq, Int.toNat_natCast] at *
  omega

theorem angle_ofSetting_name (unit : AngleUnit) :
    AngleUnit.ofSetting (.string unit.name) = .ok unit := by
  cases unit <;> rfl

theorem isRegular_digits (p : Precision) : (Json.integer p.digits).IsRegular := by
  refine .integer ?_
  have hlt : 200 < 10 ^ Text.Integer.maxDigits :=
    Nat.lt_of_lt_of_le (show 200 < 10 ^ 3 by decide) (Nat.pow_le_pow_right (by decide) (by decide))
  have := p.le_max
  rw [Text.Integer.isTooLong_iff, Int.natAbs_natCast]
  omega

theorem readHistory_toJson (history : List Entry) :
    readHistory (.array (history.map Entry.toJson)) = .ok history := by
  have hentries : (history.map Entry.toJson).mapM readEntry = some history := by
    induction history with
    | nil => rfl
    | cons entry history ih =>
      rw [List.map_cons, List.mapM_cons, ih]
      rfl
  show orMalformed ((history.map Entry.toJson).mapM readEntry) = _
  rw [hentries]
  rfl

theorem isRegular_history (h : ∀ entry ∈ history, entry.IsRegular) :
    (Json.array (history.map Entry.toJson)).IsRegular := by
  refine .array ?_
  rw [List.forall_mem_map]
  intro entry hentry
  refine .array ?_
  simpa using ⟨(h entry hentry).expression, (h entry hentry).result⟩

/-! ## The whole state -/

/-- **What is written is read again.** -/
theorem read_of_write (hdesk : desk.IsStorable) (hhistory : ∀ entry ∈ history, entry.IsRegular) :
    ∃ t, write desk history = .ok t ∧ read (.contents t) = .ok { desk, history } := by
  obtain ⟨answer, hanswer, hanswerRegular, hanswerRead⟩ := readValue_ofValue hdesk.answer
  obtain ⟨memory, hmemory, hmemoryRegular, hmemoryRead⟩ := readValue_ofValue hdesk.memory
  obtain ⟨exact, hexact⟩ := hdesk.exact
  let members : List (Text × Json) := [
    ("precision".toList, .integer desk.precision.digits),
    ("angle".toList, .string desk.angle.name),
    ("exact".toList, .bool exact),
    ("ans".toList, answer),
    ("memory".toList, memory),
    ("history".toList, .array (history.map Entry.toJson))]
  have hjson : toJson desk history = .ok (.object members) := by
    rw [toJson, hanswer, hmemory, hexact]
    rfl
  have hregular : (Json.object members).IsRegular := by
    refine .object ?_ ?_
    · show ["precision".toList, "angle".toList, "exact".toList, "ans".toList, "memory".toList,
        "history".toList].Nodup
      decide
    simp only [members, List.forall_mem_cons, List.not_mem_nil, false_imp_iff, implies_true, and_true]
    exact ⟨isRegular_digits _, .string _, .bool _, hanswerRegular, hmemoryRegular,
      isRegular_history hhistory⟩
  have hstate : readState members = .ok (desk, history) := by
    have hangle : Json.member? "angle" members = some (.string desk.angle.name) := rfl
    have hswitch : Json.member? "exact" members = some (.bool exact) := rfl
    have hans : Json.member? "ans" members = some answer := rfl
    have hmem : Json.member? "memory" members = some memory := rfl
    have hprecision : Json.member? "precision" members = some (.integer desk.precision.digits) := rfl
    have hentries : Json.member? "history" members = some (.array (history.map Entry.toJson)) := rfl
    simp only [readState, register, hangle, hswitch, hans, hmem, hprecision, hentries,
      Option.getD_some, angle_ofSetting_name, hanswerRead, hmemoryRead, readHistory_toJson,
      Precision.ofSetting, clamp_digits]
    cases desk
    cases hexact
    rfl
  refine ⟨Json.write (.object members), by rw [write, hjson]; rfl, ?_⟩
  simp only [read, Json.read?_write hregular, hstate]

/-- Different states have different files. -/
theorem eq_of_write_eq_ok {desk' : Desk} {history' : List Entry} (hdesk : desk.IsStorable)
    (hhistory : ∀ entry ∈ history, entry.IsRegular) (hdesk' : desk'.IsStorable)
    (hhistory' : ∀ entry ∈ history', entry.IsRegular) (h : write desk history = .ok t)
    (h' : write desk' history' = .ok t) : desk = desk' ∧ history = history' := by
  obtain ⟨u, hwrite, hread⟩ := read_of_write hdesk hhistory
  obtain ⟨u', hwrite', hread'⟩ := read_of_write hdesk' hhistory'
  obtain rfl := Except.ok.inj (h.symm.trans hwrite)
  obtain rfl := Except.ok.inj (h'.symm.trans hwrite')
  cases hread.symm.trans hread'
  exact ⟨rfl, rfl⟩

/-- **The state file round trip.** A desk and a history of texts are written, and what is read from the
bytes of the file is the same desk and the same history, with nothing to tell. -/
theorem read_write (hdesk : desk.IsStorable) (pairs : List (Text × Text)) :
    ∃ t, write desk (pairs.map fun p => .ofTexts p.1 p.2) = .ok t ∧
      read (.ofBytes t.toString.toUTF8) =
        .ok { desk, history := pairs.map fun p => .ofTexts p.1 p.2, notice := none } := by
  have hhistory : ∀ entry ∈ pairs.map fun p => Entry.ofTexts p.1 p.2, entry.IsRegular := by
    rw [List.forall_mem_map]
    exact fun p _ => Entry.isRegular_ofTexts p.1 p.2
  obtain ⟨t, hwrite, hread⟩ := read_of_write hdesk hhistory
  exact ⟨t, hwrite, by rw [ofBytes_toUTF8, hread]⟩

/-- A signaling NaN with a sign and a payload, the negative zero with the smallest exponent, and
characters that need escapes of every kind. -/
theorem read_write_particulars :
    let desk : Desk := {
      precision := { digits := 200 }
      angle := .degrees
      exact := .truth true
      answer := .decimal (.nan true true 70)
      memory := .decimal (.finite true 0 (-1999999999999999997)) }
    let history : List Entry := [
      .ofTexts ['"', '\\', '\n', '\x00', '\x7f'] ['é', '\uFFFF', '😀'], .ofTexts [] ['2']]
    ∃ t, write desk history = .ok t ∧
      read (.ofBytes t.toString.toUTF8) = .ok { desk, history, notice := none } := by
  intro desk history
  have hexponent : Decimal.isStorable 0 (-1999999999999999997) := by decide
  have hdesk : desk.IsStorable := ⟨⟨true, rfl⟩, trivial, hexponent⟩
  exact read_write hdesk
    [(['"', '\\', '\n', '\x00', '\x7f'], ['é', '\uFFFF', '😀']), ([], ['2'])]

end StateFile

end DeskCalculator
