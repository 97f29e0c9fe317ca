import DeskCalculator.Proofs.StateFile.Loaded

/-!
# All or nothing

Whatever stands where the state file is looked for, reading it gives either a new desk with an empty
history or a desk and a history of which each part comes from its own member (`Provides`); which of
the two is told by whether the file provides anything (`read_provided_or_usual`). A member that is
not there leaves its part as usual, and a precision that is no number counts as one that is not
there; all else that cannot be used leaves nothing of the file.

What is excluded is told exactly, too: reading is a fault if and only if it comes upon an infinite
number where it wants an integer, or upon an integer beyond a machine word among the parts of a
decimal (`read_eq_error_iff`). The members are read one after the other, so what comes before has to
be in order (`Overflows`).
-/

namespace DeskCalculator

/-! ## Integers that are let through -/

namespace Json

def ExceedsWord (v : Json) : Prop :=
  ∃ n, v = .integer n ∧ ¬ (-Nat.pow 2 63 ≤ n ∧ n < Nat.pow 2 63)

/-- An integer that fits a machine word, or a truth value. -/
def IsWord (v : Json) : Prop :=
  (∃ b, v = .bool b) ∨ ∃ n, v = .integer n ∧ -Nat.pow 2 63 ≤ n ∧ n < Nat.pow 2 63

/-- A natural number below a bound, or a truth value. -/
def IsBelow (bound : Nat) (v : Json) : Prop :=
  (∃ b, v = .bool b) ∨ ∃ n : Nat, v = .integer n ∧ n < bound

/-- One of the letters that make a decimal infinite or a NaN. -/
def IsSpecial (v : Json) : Prop :=
  v = .string ['F'] ∨ v = .string ['n'] ∨ v = .string ['N']

def IsInfinite (v : Json) : Prop := ∃ s, v = .number (.infinite s)

/-- The parts of a decimal that hold an integer beyond a machine word where it is come upon. -/
inductive PartsOverflow (sign digits exponent : Json) : Prop
  | sign (h : sign.ExceedsWord)
  | exponent (hsign : sign.IsBelow 2) (h : exponent.ExceedsWord)
  | digit {before after : List Json} {d : Json} (hsign : sign.IsBelow 2)
      (hexponent : exponent.IsSpecial ∨ exponent.IsWord)
      (hdigits : digits = .array (before ++ d :: after)) (hbefore : ∀ b ∈ before, b.IsBelow 10)
      (h : d.ExceedsWord)

/-- A stored value that holds an infinite number where an integer is wanted, or an integer beyond a
machine word among the parts of a decimal. -/
inductive ValueOverflows : Json → Prop
  | exact {members : List (Text × Json)} {v : Json} (hmember : member? "exact" members = some v)
      (h : v.IsInfinite) : ValueOverflows (.object members)
  | decimal {members : List (Text × Json)} {sign digits exponent : Json}
      (hexact : member? "exact" members = none)
      (hmember : member? "decimal" members = some (.array [sign, digits, exponent]))
      (h : PartsOverflow sign digits exponent) : ValueOverflows (.object members)

end Json

namespace StateFile

open Json

variable {α β : Type} {v : Json} {members : List (Text × Json)}

def Faults (x : Except Refusal α) : Prop := ∃ f, x = .error (.fault f)

theorem faults_fault (f : Fault) : Faults (.error (.fault f) : Except Refusal α) := ⟨f, rfl⟩

@[simp] theorem not_faults_ok (a : α) : ¬ Faults (.ok a) := nofun

@[simp] theorem not_faults_malformed : ¬ Faults (.error .malformed : Except Refusal α) := nofun

@[simp] theorem not_faults_orMalformed (x : Option α) : ¬ Faults (orMalformed x) := by
  cases x with
  | none => exact not_faults_malformed
  | some a => exact not_faults_ok a

@[simp] theorem faults_map {x : Except Refusal α} {f : α → β} : Faults (x.map f) ↔ Faults x := by
  cases x with
  | ok a => exact iff_of_false (not_faults_ok _) (not_faults_ok _)
  | error e =>
    refine ⟨fun ⟨f, h⟩ => ⟨f, ?_⟩, fun ⟨f, h⟩ => ⟨f, ?_⟩⟩ <;> cases h <;> rfl

@[simp] theorem faults_functorMap {x : Except Refusal α} {f : α → β} : Faults (f <$> x) ↔ Faults x :=
  faults_map

theorem faults_ok_bind {a : α} {f : α → Except Refusal β} :
    Faults (Except.ok a >>= f) ↔ Faults (f a) := Iff.rfl

theorem faults_bind {x : Except Refusal α} {f : α → Except Refusal β} :
    Faults (x >>= f) ↔ Faults x ∨ ∃ a, x = .ok a ∧ Faults (f a) := by
  cases x with
  | ok a =>
    refine ⟨fun h => .inr ⟨a, rfl, h⟩, fun h => ?_⟩
    obtain h | ⟨_, ha, h⟩ := h
    · exact absurd h (not_faults_ok a)
    · cases ha
      exact h
  | error e =>
    refine ⟨fun ⟨f, h⟩ => .inl ⟨f, ?_⟩, fun h => ?_⟩
    · cases h
      rfl
    · obtain ⟨f, h⟩ | ⟨_, h, -⟩ := h
      · cases h
        exact faults_fault f
      · cases h

theorem faults_mapM {f : α → Except Refusal β} {items : List α} :
    Faults (items.mapM f) ↔ ∃ before item after, items = before ++ item :: after ∧
      (∀ b ∈ before, ∃ y, f b = .ok y) ∧ Faults (f item) := by
  induction items with
  | nil => simp [show List.mapM f [] = .ok [] from rfl]
  | cons head tail ih =>
    rw [List.mapM_cons, faults_bind]
    constructor
    · rintro (hhead | ⟨y, hy, h⟩)
      · exact ⟨[], head, tail, rfl, by simp, hhead⟩
      · obtain htail | ⟨_, -, h⟩ := faults_bind.1 h
        · obtain ⟨before, item, after, rfl, hbefore, hitem⟩ := ih.1 htail
          exact ⟨head :: before, item, after, rfl,
            List.forall_mem_cons.2 ⟨⟨y, hy⟩, hbefore⟩, hitem⟩
        · exact absurd h (not_faults_ok _)
    · rintro ⟨before, item, after, hitems, hbefore, hitem⟩
      cases before with
      | nil =>
        cases hitems
        exact .inl hitem
      | cons b before =>
        cases hitems
        obtain ⟨⟨y, hy⟩, hbefore⟩ := List.forall_mem_cons.1 hbefore
        exact .inr ⟨y, hy, faults_bind.2 (.inl (ih.2 ⟨before, item, after, rfl, hbefore, hitem⟩))⟩

/-! ## The parts of a decimal -/

theorem faults_readWord : Faults (readWord v) ↔ v.ExceedsWord := by
  unfold readWord
  split
  · rename_i n
    split
    · rename_i h
      exact iff_of_false (not_faults_ok _) fun ⟨_, hn, hnot⟩ => hnot (Json.integer.inj hn ▸ h)
    · rename_i h
      exact iff_of_true (faults_fault _) ⟨n, rfl, h⟩
  · exact iff_of_false (not_faults_ok _) nofun
  · rename_i hinteger _
    exact iff_of_false not_faults_malformed fun ⟨n, hn, _⟩ => hinteger n hn

theorem exists_readWord_iff : (∃ n, readWord v = .ok n) ↔ v.IsWord := by
  unfold readWord
  split
  · rename_i n
    split
    · rename_i h
      exact iff_of_true ⟨_, rfl⟩ (.inr ⟨n, rfl, h⟩)
    · rename_i h
      refine iff_of_false nofun ?_
      rintro (⟨_, ⟨⟩⟩ | ⟨_, ⟨⟩, hword⟩)
      exact h hword
  · exact iff_of_true ⟨_, rfl⟩ (.inl ⟨_, rfl⟩)
  · rename_i hinteger hbool
    refine iff_of_false nofun ?_
    rintro (⟨b, rfl⟩ | ⟨n, rfl, -⟩)
    · exact hbool b rfl
    · exact hinteger n rfl

theorem faults_readBelow {bound : Nat} : Faults (readBelow bound v) ↔ v.ExceedsWord := by
  rw [readBelow, faults_bind, faults_readWord, or_iff_left_iff_imp]
  rintro ⟨n, -, h⟩
  split at h
  · exact absurd h (not_faults_ok _)
  · exact absurd h not_faults_malformed

theorem exists_readBelow_iff {bound : Nat} (hbound : 2 ≤ bound) (hword : bound ≤ Nat.pow 2 63) :
    (∃ n, readBelow bound v = .ok n) ↔ v.IsBelow bound := by
  constructor
  · rintro ⟨n, h⟩
    obtain ⟨k, hk, h⟩ := bind_eq_ok_iff.1 h
    split at h
    · rename_i hrange
      unfold readWord at hk
      split at hk
      · split at hk
        · cases hk
          obtain ⟨m, rfl⟩ := Int.eq_ofNat_of_zero_le hrange.1
          exact .inr ⟨m, rfl, Int.ofNat_lt.1 hrange.2⟩
        · cases hk
      · exact .inl ⟨_, rfl⟩
      · cases hk
    · cases h
  · rintro (⟨b, rfl⟩ | ⟨n, rfl, hn⟩)
    · refine ⟨if b then 1 else 0, ?_⟩
      show (if _ then _ else _) = _
      cases b
      · exact if_pos ⟨by decide, by simp; omega⟩
      · exact if_pos ⟨by decide, by simp; omega⟩
    · have hfits : -Nat.pow 2 63 ≤ (n : Int) ∧ (n : Int) < Nat.pow 2 63 := by omega
      refine ⟨n, ?_⟩
      rw [readBelow, readWord, if_pos hfits]
      exact if_pos ⟨Int.natCast_nonneg n, Int.ofNat_lt.2 hn⟩

theorem faults_readCoefficient : Faults (readCoefficient v) ↔
    ∃ before d after, v = .array (before ++ d :: after) ∧ (∀ b ∈ before, b.IsBelow 10) ∧
      d.ExceedsWord := by
  unfold readCoefficient
  split
  · simp only [faults_map, faults_mapM, faults_readBelow, Json.array.injEq,
      exists_readBelow_iff (show 2 ≤ 10 by decide) (by decide)]
  · rename_i harray
    exact iff_of_false not_faults_malformed fun ⟨_, _, _, h, _⟩ => harray _ h

/-- With the sign taken, the exponent comes before the digits. -/
theorem faults_readParts_of_sign {sign digits exponent : Json} {k : Nat}
    (hsign : readBelow 2 sign = .ok k) : Faults (readParts sign digits exponent) ↔
      exponent.ExceedsWord ∨
        (exponent.IsSpecial ∨ exponent.IsWord) ∧ Faults (readCoefficient digits) := by
  rw [readParts, hsign, faults_ok_bind]
  dsimp only
  split
  · simp [ExceedsWord, IsSpecial]
  · simp [ExceedsWord, IsSpecial]
  · simp [ExceedsWord, IsSpecial]
  · rename_i hF hn hN
    have hspecial : ¬ exponent.IsSpecial := by
      rintro (h | h | h)
      · exact hF h
      · exact hn h
      · exact hN h
    rw [faults_bind, faults_readWord, or_iff_right hspecial, ← exists_readWord_iff]
    refine or_congr_right ⟨?_, ?_⟩
    · rintro ⟨e, he, h⟩
      obtain h | ⟨c, -, h⟩ := faults_bind.1 h
      · exact ⟨⟨e, he⟩, h⟩
      · split at h
        · exact absurd h (not_faults_ok _)
        · exact absurd h not_faults_malformed
    · rintro ⟨⟨e, he⟩, h⟩
      exact ⟨e, he, faults_bind.2 (.inl h)⟩

theorem faults_readParts {sign digits exponent : Json} :
    Faults (readParts sign digits exponent) ↔ PartsOverflow sign digits exponent := by
  have hsign := exists_readBelow_iff (v := sign) (show 2 ≤ 2 by decide) (by decide)
  constructor
  · intro h
    obtain hfault | ⟨k, hk, -⟩ := faults_bind.1 h
    · exact .sign (faults_readBelow.1 hfault)
    · have htaken := hsign.1 ⟨k, hk⟩
      obtain hexponent | ⟨hexponent, hdigits⟩ := (faults_readParts_of_sign hk).1 h
      · exact .exponent htaken hexponent
      · obtain ⟨before, d, after, hdigits, hbefore, hd⟩ := faults_readCoefficient.1 hdigits
        exact .digit htaken hexponent hdigits hbefore hd
  · intro h
    cases h with
    | sign h => exact faults_bind.2 (.inl (faults_readBelow.2 h))
    | exponent htaken h =>
      obtain ⟨k, hk⟩ := hsign.2 htaken
      exact (faults_readParts_of_sign hk).2 (.inl h)
    | digit htaken hexponent hdigits hbefore h =>
      obtain ⟨k, hk⟩ := hsign.2 htaken
      exact (faults_readParts_of_sign hk).2
        (.inr ⟨hexponent, faults_readCoefficient.2 ⟨_, _, _, hdigits, hbefore, h⟩⟩)

/-! ## Values -/

theorem faults_readExact : Faults (readExact v) ↔ v.IsInfinite := by
  cases v with
  | number x => cases x <;> simp [readExact, IsInfinite, faults_fault]
  | _ => simp [readExact, IsInfinite]

theorem faults_readDecimal : Faults (readDecimal v) ↔
    ∃ sign digits exponent, v = .array [sign, digits, exponent] ∧
      PartsOverflow sign digits exponent := by
  unfold readDecimal
  split
  · simp
  · simp
  · simp
  · simp
  · simp [faults_readParts]
  · rename_i harray
    exact iff_of_false not_faults_malformed fun ⟨_, _, _, h, _⟩ => harray _ _ _ h

theorem faults_readValue : Faults (readValue v) ↔ v.ValueOverflows := by
  unfold readValue
  split
  · rename_i members
    split
    · rename_i hexact
      rw [faults_map, faults_readExact]
      refine ⟨.exact hexact, fun h => ?_⟩
      cases h with
      | exact hmember h => exact Option.some.inj (hexact.symm.trans hmember) ▸ h
      | decimal hnone => exact absurd (hexact.symm.trans hnone) nofun
    · rename_i hexact hdecimal
      rw [faults_map, faults_readDecimal]
      constructor
      · rintro ⟨sign, digits, exponent, rfl, h⟩
        exact .decimal hexact hdecimal h
      · intro h
        cases h with
        | exact hmember _ => exact absurd (hexact.symm.trans hmember) nofun
        | decimal _ hmember h =>
          exact ⟨_, _, _, Option.some.inj (hdecimal.symm.trans hmember), h⟩
    · rename_i hexact hdecimal
      refine iff_of_false not_faults_malformed fun h => ?_
      cases h with
      | exact hmember _ => exact absurd (hexact.symm.trans hmember) nofun
      | decimal _ hmember _ => exact absurd (hdecimal.symm.trans hmember) nofun
  · rename_i hobject
    refine iff_of_false not_faults_malformed fun h => ?_
    cases h with
    | exact => exact hobject _ rfl
    | decimal => exact hobject _ rfl

/-! ## The members of the state -/

/-- What a member gives: what it is taken as, or the usual value where there is no such member. -/
def Gives (members : List (Text × Json)) (key : String) (usual : α) (takes : Json → α → Prop)
    (a : α) : Prop :=
  match Json.member? key members with
  | some v => takes v a
  | none => a = usual

def GivesAngle (members : List (Text × Json)) : AngleUnit → Prop :=
  Gives members "angle" .radians fun v unit => v = .string unit.name

def GivesRegister (members : List (Text × Json)) (key : String) : Value → Prop :=
  Gives members key (.decimal .zero) fun v a => readValue v = .ok a

/-- What the members of a state provide: each part comes from its own member. A precision is the
nearest one in the range to an integer, and the standard one for what is no number. -/
structure Provides (members : List (Text × Json)) (desk : Desk) (history : List Entry) : Prop where
  precision : Gives members "precision" .standard
    (fun v p => p = (readExact v).toOption.elim .standard .clamp) desk.precision
  angle : GivesAngle members desk.angle
  exact : Gives members "exact" (.truth false) (fun v s => s = .truth v.isTrue) desk.exact
  answer : GivesRegister members "ans" desk.answer
  memory : GivesRegister members "memory" desk.memory
  history : Gives members "history" [] (fun v entries => ∃ items, elements v = some items ∧
    List.Forall₂ (fun item entry => elements item = some [entry.expression, entry.result])
      items entries) history

/-- A state in which reading comes upon a fault: the angle is taken first, then the registers, then
the precision. -/
inductive Overflows (members : List (Text × Json)) : Prop
  | answer {v : Json} (hangle : ∃ unit, GivesAngle members unit)
      (hmember : Json.member? "ans" members = some v) (h : v.ValueOverflows)
  | memory {v : Json} (hangle : ∃ unit, GivesAngle members unit)
      (hanswer : ∃ a, GivesRegister members "ans" a)
      (hmember : Json.member? "memory" members = some v) (h : v.ValueOverflows)
  | precision {v : Json} (hangle : ∃ unit, GivesAngle members unit)
      (hanswer : ∃ a, GivesRegister members "ans" a)
      (hmemory : ∃ a, GivesRegister members "memory" a)
      (hmember : Json.member? "precision" members = some v) (h : v.IsInfinite)

section Members

variable {key : String} {usual a : α} {takes takes' : Json → α → Prop}

theorem Gives.imp (h : Gives members key usual takes a)
    (himp : ∀ v, Json.member? key members = some v → takes v a → takes' v a) :
    Gives members key usual takes' a := by
  unfold Gives at h ⊢
  split at h
  · rename_i hmember
    exact himp _ hmember h
  · exact h

theorem getD_eq_ok_iff {ε : Type} {r : Json → Except ε α} {absent : Json}
    (h : r absent = .ok usual) :
    r ((Json.member? key members).getD absent) = .ok a ↔
      Gives members key usual (fun v a => r v = .ok a) a := by
  cases hmember : Json.member? key members with
  | none => simp [Gives, hmember, h, eq_comm]
  | some v => simp [Gives, hmember]

end Members

theorem refusing_eq_ok_iff {x : Except Fault α} {a : α} : refusing x = .ok a ↔ x = .ok a := by
  cases x with
  | ok b => simp [refusing, Except.mapError]
  | error f => simp [refusing, Except.mapError]

theorem angle_ofSetting_eq_ok_iff {unit : AngleUnit} :
    AngleUnit.ofSetting v = .ok unit ↔ v = .string unit.name := by
  refine ⟨fun h => ?_, fun h => h ▸ angle_ofSetting_name unit⟩
  unfold AngleUnit.ofSetting at h
  split at h
  · split at h
    · rename_i hname
      cases h
      rw [hname]
    · split at h
      · rename_i hname
        cases h
        rw [hname]
      · cases h
  · cases h

theorem not_faults_angle : ¬ Faults (refusing (AngleUnit.ofSetting v)) := by
  unfold AngleUnit.ofSetting
  split
  · split
    · exact not_faults_ok _
    · split
      · exact not_faults_ok _
      · exact not_faults_malformed
  · exact not_faults_malformed

/-- A precision is read as an exact integer is, but for what is malformed. -/
theorem precision_ofSetting_eq (v : Json) : refusing (Precision.ofSetting v) =
    match readExact v with
    | .ok n => .ok (.clamp n)
    | .error .malformed => .ok .standard
    | .error (.fault f) => .error (.fault f) := by
  cases v with
  | number x => cases x <;> rfl
  | string t =>
    rw [Precision.ofSetting, readExact]
    cases Text.Integer.read? t <;> rfl
  | _ => rfl

theorem faults_precision : Faults (refusing (Precision.ofSetting v)) ↔ v.IsInfinite := by
  rw [precision_ofSetting_eq, ← faults_readExact]
  split
  · rename_i h
    simp [h]
  · rename_i h
    simp [h]
  · rename_i h
    simp [h, faults_fault]

theorem precision_ofSetting_eq_ok_iff {p : Precision} (h : ¬ v.IsInfinite) :
    refusing (Precision.ofSetting v) = .ok p ↔
      p = (readExact v).toOption.elim .standard .clamp := by
  rw [← faults_readExact] at h
  rw [precision_ofSetting_eq]
  split
  · rename_i hread
    simp [hread, Except.toOption, eq_comm]
  · rename_i hread
    simp [hread, Except.toOption, eq_comm]
  · rename_i hread
    exact absurd ⟨_, hread⟩ h

theorem register_eq_ok_iff {key : String} {a : Value} :
    register members key (.decimal .zero) = .ok a ↔ GivesRegister members key a := by
  cases hmember : Json.member? key members with
  | none => simp [GivesRegister, Gives, register, hmember, eq_comm]
  | some v => simp [GivesRegister, Gives, register, hmember]

theorem faults_register {key : String} {usual : Value} : Faults (register members key usual) ↔
    ∃ v, Json.member? key members = some v ∧ v.ValueOverflows := by
  cases hmember : Json.member? key members with
  | none => simp [register, hmember]
  | some v => simp [register, hmember, faults_readValue]

theorem readEntry_eq_some_iff {item : Json} {entry : Entry} :
    readEntry item = some entry ↔ elements item = some [entry.expression, entry.result] := by
  unfold readEntry
  split
  · rename_i helements
    rw [helements]
    cases entry
    simp
  · rename_i hnot
    exact iff_of_false nofun fun h => hnot _ _ h

theorem mapM_readEntry_eq_some_iff {items : List Json} {history : List Entry} :
    items.mapM readEntry = some history ↔
      List.Forall₂ (fun item entry => elements item = some [entry.expression, entry.result])
        items history := by
  induction items generalizing history with
  | nil => cases history <;> simp [show List.mapM readEntry [] = some [] from rfl]
  | cons item items ih =>
    rw [List.mapM_cons]
    constructor
    · intro h
      obtain ⟨entry, hentry, h⟩ := Option.bind_eq_some_iff.1 h
      obtain ⟨entries, hentries, h⟩ := Option.bind_eq_some_iff.1 h
      cases h
      exact .cons (readEntry_eq_some_iff.1 hentry) (ih.1 hentries)
    · rintro (_ | ⟨hentry, hentries⟩)
      exact Option.bind_eq_some_iff.2 ⟨_, readEntry_eq_some_iff.2 hentry,
        Option.bind_eq_some_iff.2 ⟨_, ih.2 hentries, rfl⟩⟩

theorem orMalformed_eq_ok_iff {x : Option α} {a : α} : orMalformed x = .ok a ↔ x = some a := by
  cases x <;> simp [orMalformed]

theorem readHistory_eq_ok_iff {history : List Entry} : readHistory v = .ok history ↔
    ∃ items, elements v = some items ∧
      List.Forall₂ (fun item entry => elements item = some [entry.expression, entry.result])
        items history := by
  rw [readHistory, orMalformed_eq_ok_iff, Option.bind_eq_bind, Option.bind_eq_some_iff]
  simp only [mapM_readEntry_eq_some_iff]

/-! ## The state -/

section State

variable {desk : Desk} {history : List Entry}

theorem angle_eq_ok_iff {unit : AngleUnit} :
    refusing (AngleUnit.ofSetting ((Json.member? "angle" members).getD
      (.string ({} : Desk).angle.name))) = .ok unit ↔ GivesAngle members unit := by
  simp only [refusing_eq_ok_iff, GivesAngle, ← angle_ofSetting_eq_ok_iff]
  exact getD_eq_ok_iff (angle_ofSetting_name _)

theorem faults_precision_getD :
    Faults (refusing (Precision.ofSetting ((Json.member? "precision" members).getD .null))) ↔
      ∃ v, Json.member? "precision" members = some v ∧ v.IsInfinite := by
  cases hmember : Json.member? "precision" members with
  | none => simp [faults_precision, IsInfinite]
  | some v => simp [faults_precision]

theorem precision_eq_ok_iff {p : Precision}
    (h : ∀ v, Json.member? "precision" members = some v → ¬ v.IsInfinite) :
    refusing (Precision.ofSetting ((Json.member? "precision" members).getD .null)) = .ok p ↔
      Gives members "precision" .standard
        (fun v p => p = (readExact v).toOption.elim .standard .clamp) p := by
  have husual : refusing (Precision.ofSetting .null) = .ok Precision.standard := rfl
  rw [getD_eq_ok_iff (r := fun v => refusing (Precision.ofSetting v)) husual]
  exact ⟨fun hgives => hgives.imp fun v hv => (precision_ofSetting_eq_ok_iff (h v hv)).1,
    fun hgives => hgives.imp fun v hv => (precision_ofSetting_eq_ok_iff (h v hv)).2⟩

theorem history_eq_ok_iff :
    readHistory ((Json.member? "history" members).getD (.array [])) = .ok history ↔
      Gives members "history" [] (fun v entries => ∃ items, elements v = some items ∧
        List.Forall₂ (fun item entry => elements item = some [entry.expression, entry.result])
          items entries) history := by
  simp only [← readHistory_eq_ok_iff]
  exact getD_eq_ok_iff rfl

theorem exact_iff {switch : Switch} :
    switch = .truth ((Json.member? "exact" members).getD (.bool false)).isTrue ↔
      Gives members "exact" (.truth false) (fun v s => s = .truth v.isTrue) switch := by
  cases hmember : Json.member? "exact" members <;> simp [Gives, hmember, Json.isTrue]

theorem readState_eq_ok_iff (h : ¬ Overflows members) :
    readState members = .ok (desk, history) ↔ Provides members desk history := by
  constructor
  · intro hread
    obtain ⟨angle, hangle, hread⟩ := bind_eq_ok_iff.1 hread
    obtain ⟨answer, hanswer, hread⟩ := bind_eq_ok_iff.1 hread
    obtain ⟨memory, hmemory, hread⟩ := bind_eq_ok_iff.1 hread
    obtain ⟨precision, hprecision, hread⟩ := bind_eq_ok_iff.1 hread
    obtain ⟨entries, hentries, hread⟩ := bind_eq_ok_iff.1 hread
    have hangle := angle_eq_ok_iff.1 hangle
    have hanswer := register_eq_ok_iff.1 hanswer
    have hmemory := register_eq_ok_iff.1 hmemory
    cases hread
    refine ⟨?_, hangle, exact_iff.1 rfl, hanswer, hmemory, history_eq_ok_iff.1 hentries⟩
    exact (precision_eq_ok_iff fun v hv hinfinite =>
      h (.precision ⟨_, hangle⟩ ⟨_, hanswer⟩ ⟨_, hmemory⟩ hv hinfinite)).1 hprecision
  · intro hprovides
    have hprecision := (precision_eq_ok_iff fun v hv hinfinite => h (.precision
      ⟨_, hprovides.angle⟩ ⟨_, hprovides.answer⟩ ⟨_, hprovides.memory⟩ hv hinfinite)).2
      hprovides.precision
    refine bind_eq_ok_iff.2 ⟨_, angle_eq_ok_iff.2 hprovides.angle, ?_⟩
    refine bind_eq_ok_iff.2 ⟨_, register_eq_ok_iff.2 hprovides.answer, ?_⟩
    refine bind_eq_ok_iff.2 ⟨_, register_eq_ok_iff.2 hprovides.memory, ?_⟩
    refine bind_eq_ok_iff.2 ⟨_, hprecision, ?_⟩
    refine bind_eq_ok_iff.2 ⟨_, history_eq_ok_iff.2 hprovides.history, ?_⟩
    rw [← exact_iff.2 hprovides.exact]
    rfl

theorem faults_readState : Faults (readState members) ↔ Overflows members := by
  constructor
  · intro h
    obtain h | ⟨unit, hangle, h⟩ := faults_bind.1 h
    · exact absurd h not_faults_angle
    have hangle := angle_eq_ok_iff.1 hangle
    obtain h | ⟨answer, hanswer, h⟩ := faults_bind.1 h
    · obtain ⟨v, hmember, hv⟩ := faults_register.1 h
      exact .answer ⟨_, hangle⟩ hmember hv
    have hanswer := register_eq_ok_iff.1 hanswer
    obtain h | ⟨memory, hmemory, h⟩ := faults_bind.1 h
    · obtain ⟨v, hmember, hv⟩ := faults_register.1 h
      exact .memory ⟨_, hangle⟩ ⟨_, hanswer⟩ hmember hv
    have hmemory := register_eq_ok_iff.1 hmemory
    obtain h | ⟨precision, -, h⟩ := faults_bind.1 h
    · obtain ⟨v, hmember, hv⟩ := faults_precision_getD.1 h
      exact .precision ⟨_, hangle⟩ ⟨_, hanswer⟩ ⟨_, hmemory⟩ hmember hv
    · obtain h | ⟨_, -, h⟩ := faults_bind.1 h
      · exact absurd h (not_faults_orMalformed _)
      · exact absurd h (not_faults_ok _)
  · intro h
    cases h with
    | answer hangle hmember hv =>
      obtain ⟨unit, hangle⟩ := hangle
      refine faults_bind.2 (.inr ⟨_, angle_eq_ok_iff.2 hangle, ?_⟩)
      exact faults_bind.2 (.inl (faults_register.2 ⟨_, hmember, hv⟩))
    | memory hangle hanswer hmember hv =>
      obtain ⟨unit, hangle⟩ := hangle
      obtain ⟨answer, hanswer⟩ := hanswer
      refine faults_bind.2 (.inr ⟨_, angle_eq_ok_iff.2 hangle, ?_⟩)
      refine faults_bind.2 (.inr ⟨_, register_eq_ok_iff.2 hanswer, ?_⟩)
      exact faults_bind.2 (.inl (faults_register.2 ⟨_, hmember, hv⟩))
    | precision hangle hanswer hmemory hmember hv =>
      obtain ⟨unit, hangle⟩ := hangle
      obtain ⟨answer, hanswer⟩ := hanswer
      obtain ⟨memory, hmemory⟩ := hmemory
      refine faults_bind.2 (.inr ⟨_, angle_eq_ok_iff.2 hangle, ?_⟩)
      refine faults_bind.2 (.inr ⟨_, register_eq_ok_iff.2 hanswer, ?_⟩)
      refine faults_bind.2 (.inr ⟨_, register_eq_ok_iff.2 hmemory, ?_⟩)
      exact faults_bind.2 (.inl (faults_precision_getD.2 ⟨_, hmember, hv⟩))

end State

/-! ## The file -/

/-- The members of the object that a state file holds, if it holds one. -/
def Source.members? : Source → Option (List (Text × Json))
  | .contents t =>
    match Json.read? t with
    | some (.object members) => some members
    | _ => none
  | _ => none

def Source.Provides (source : Source) (desk : Desk) (history : List Entry) : Prop :=
  ∃ members, source.members? = some members ∧ StateFile.Provides members desk history

def Source.Overflows (source : Source) : Prop :=
  ∃ members, source.members? = some members ∧ StateFile.Overflows members

section File

variable {source : Source}

theorem read_of_members?_eq_none (h : source.members? = none) :
    ∃ notice, read source = .ok { notice } := by
  cases source with
  | absent => exact ⟨_, rfl⟩
  | unreadable => exact ⟨_, rfl⟩
  | contents t =>
    simp only [Source.members?] at h
    simp only [read]
    split at h
    · cases h
    · rename_i hobject
      split
      · exact ⟨_, rfl⟩
      · rename_i hread
        exact absurd hread (hobject _)
      · exact ⟨_, rfl⟩

theorem read_of_members?_eq_some (h : source.members? = some members) : read source =
    match readState members with
    | .ok (desk, history) => .ok { desk, history }
    | .error .malformed => .ok { notice := some .malformed }
    | .error (.fault f) => .error f := by
  cases source with
  | absent => cases h
  | unreadable => cases h
  | contents t =>
    simp only [Source.members?] at h
    simp only [read]
    split at h
    · rename_i hread
      cases h
      split
      · rename_i hnone
        cases hnone.symm.trans hread
      · rename_i hobject
        cases hobject.symm.trans hread
        rfl
      · rename_i hother hvalue
        exact absurd (Option.some.inj (hvalue.symm.trans hread)) (hother _)
    · cases h

/-- **The faults of reading, exactly.** -/
theorem read_eq_error_iff : (∃ f, read source = .error f) ↔ source.Overflows := by
  cases hmembers : source.members? with
  | none =>
    obtain ⟨notice, hread⟩ := read_of_members?_eq_none hmembers
    simp [Source.Overflows, hmembers, hread]
  | some members =>
    rw [read_of_members?_eq_some hmembers]
    simp only [Source.Overflows, hmembers, Option.some.injEq, exists_eq_left', ← faults_readState]
    split
    · rename_i hstate
      simp [hstate]
    · rename_i hstate
      simp [hstate]
    · rename_i hstate
      simp [hstate, faults_fault]

/-- An infinite precision is let through. -/
example : (read (.contents "\x7b\"precision\": 1e999\x7d".toList)).isOk = false := by decide +kernel

/-- **All or nothing.** A state file that is read without a fault gives the desk and the history that
it provides, or, if it provides nothing, a new desk and an empty history. -/
theorem read_provided_or_usual (h : ¬ source.Overflows) : ∃ loaded, read source = .ok loaded ∧
    8 ≤ loaded.desk.precision.digits ∧ loaded.desk.precision.digits ≤ 200 ∧
    (source.Provides loaded.desk loaded.history ∨
      (∀ desk history, ¬ source.Provides desk history) ∧
        loaded.desk = {} ∧ loaded.history = []) := by
  cases hmembers : source.members? with
  | none =>
    obtain ⟨notice, hread⟩ := read_of_members?_eq_none hmembers
    refine ⟨_, hread, Precision.standard.min_le, Precision.standard.le_max, .inr ⟨?_, rfl, rfl⟩⟩
    rintro desk history ⟨members, hsome, -⟩
    exact absurd (hmembers.symm.trans hsome) nofun
  | some members =>
    have hmember : ¬ StateFile.Overflows members := fun hover => h ⟨members, hmembers, hover⟩
    have hread := read_of_members?_eq_some hmembers
    cases hstate : readState members with
    | ok state =>
      obtain ⟨desk, history⟩ := state
      rw [hstate] at hread
      exact ⟨_, hread, desk.precision.min_le, desk.precision.le_max,
        .inl ⟨members, hmembers, (readState_eq_ok_iff hmember).1 hstate⟩⟩
    | error refusal =>
      cases refusal with
      | malformed =>
        rw [hstate] at hread
        refine ⟨_, hread, Precision.standard.min_le, Precision.standard.le_max,
          .inr ⟨?_, rfl, rfl⟩⟩
        rintro desk history ⟨members', hmembers', hprovides⟩
        obtain rfl := Option.some.inj (hmembers.symm.trans hmembers')
        exact absurd (hstate.symm.trans ((readState_eq_ok_iff hmember).2 hprovides)) nofun
      | fault f => exact absurd (faults_readState.1 ⟨f, hstate⟩) hmember

/-- A precision that is no whole number, a register given by the parts of a decimal, and a history
given by the keys of an object. -/
theorem read_provided_of_foreign :
    let source := Source.contents
      "\x7b\"precision\": 9.5, \"ans\": \x7b\"decimal\": [1, [2, 5], -1]\x7d, \"history\": \x7b\"ab\": 0\x7d\x7d".toList
    ¬ source.Overflows ∧ ∃ loaded, read source = .ok loaded ∧
      8 ≤ loaded.desk.precision.digits ∧ loaded.desk.precision.digits ≤ 200 ∧
      source.Provides loaded.desk loaded.history ∧
      loaded.desk = { precision := { digits := 9 }, answer := .decimal (.finite true 25 (-1)) } ∧
      loaded.history = [.ofTexts ['a'] ['b']] := by
  intro source
  have hread : (read source).isOk := by decide +kernel
  have h : ¬ source.Overflows := fun hover => by
    obtain ⟨f, hfault⟩ := read_eq_error_iff.2 hover
    rw [hfault] at hread
    cases hread
  obtain ⟨loaded, hloaded, hmin, hmax, hprovides⟩ := read_provided_or_usual h
  -- The values of a history cannot be compared by evaluation, but the files can be.
  let desk : Desk := { precision := { digits := 9 }, answer := .decimal (.finite true 25 (-1)) }
  let history := [Entry.ofTexts ['a'] ['b']]
  have hstorable : desk.IsStorable :=
    ⟨⟨false, rfl⟩, show Decimal.isStorable 25 (-1) by decide, Decimal.isStorable_zero⟩
  have hregular : ∀ entry ∈ history, entry.IsRegular := by simp [history, Entry.isRegular_ofTexts]
  obtain ⟨t, hwrite, -⟩ := read_of_write hstorable hregular
  have hfile : (read source >>= fun l => write l.desk l.history).toOption =
      (write desk history).toOption := by decide +kernel
  rw [hloaded, hwrite] at hfile
  obtain ⟨hdesk, hhistory⟩ := isStorable_of_read hloaded
  obtain ⟨hdesk, hhistory⟩ :=
    eq_of_write_eq_ok hdesk hhistory hstorable hregular (eq_ok_of_toOption hfile) hwrite
  obtain hprovides | ⟨-, hnew, -⟩ := hprovides
  · exact ⟨h, loaded, hloaded, hmin, hmax, hprovides, hdesk, hhistory⟩
  · exact absurd (hdesk.symm.trans hnew) (by decide)

/-- A precision that cannot be used is replaced by the standard one, beside a switch that is taken
from the same file: neither a new desk nor one of which every part is the file's. -/
theorem read_unusable_precision :
    ∃ loaded, read (.contents "\x7b\"precision\": \"lots\", \"exact\": true\x7d".toList) = .ok loaded ∧
      readExact (.string "lots".toList) = .error .malformed ∧
      loaded.desk.precision = .standard ∧ loaded.desk.exact = .truth true ∧ loaded.desk ≠ {} := by
  have hdesk : (read (.contents "\x7b\"precision\": \"lots\", \"exact\": true\x7d".toList)).toOption.map
      Loaded.desk = some { exact := .truth true } := by decide +kernel
  obtain ⟨loaded, hread, hloaded⟩ := Option.map_eq_some_iff.1 hdesk
  refine ⟨loaded, ?_, by decide +kernel, ?_⟩
  · revert hread
    cases read _ with
    | ok _ => exact fun h => congrArg _ (Option.some.inj h)
    | error _ => exact nofun
  · rw [hloaded]
    decide

end File

end StateFile

end DeskCalculator
