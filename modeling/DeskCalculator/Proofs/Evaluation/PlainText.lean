import DeskCalculator.Evaluation
import DeskCalculator.Proofs.Decimal.Plain
import DeskCalculator.Proofs.Decimal.Representable
import DeskCalculator.Proofs.Expression.Parsing
import DeskCalculator.Proofs.Stack.TreeRun
import DeskCalculator.Proofs.Text.Integer
import DeskCalculator.Proofs.Value.Number
import DeskCalculator.Proofs.Value.Text

/-!
# Evaluating the plain text of a value

The plain text of a value is an optional minus and a numeral, and evaluating it gives the number of
the value again (`compute_plain`): exactly, if the context of the desk represents the value, and
rounded to the precision, if the value is an integer.
-/

namespace DeskCalculator

open Decimal (signText scaled)

/-! ## Texts with a derivation -/

theorem Item.ofText_of_derives {ls : List Lexeme} {e : Tree} {t : Text} (hd : Derives .sum ls e)
    (hs : Spells ls t) : Item.ofText t = .ok e.items := by
  have hplace : Lexeme.placement true ls = some false := placement_of_derives hd rfl
  obtain ⟨tokens, hscan, htokens⟩ := Token.scan_of_spells (by rw [hplace]; rfl) hs
  rw [Item.ofText, hscan]
  exact Postfix.ofTokens_of_derives hd htokens

theorem Desk.compute_of_derives {desk : Desk} {ls : List Lexeme} {e : Tree} {t : Text}
    (hd : Derives .sum ls e) (hs : Spells ls t) (happ : e.IsApplicable)
    (hheight : e.height desk ≤ Stack.maxEntries) : desk.compute t = e.result desk := by
  rw [compute, Item.ofText_of_derives hd hs]
  exact Stack.run_items happ hheight

/-! ## A signed numeral -/

def Tree.signed (negative : Bool) (w : Text) : Tree :=
  if negative then .negate (.number w) else .number w

/-- The lexemes of a numeral with a minus before it or not. -/
def Lexeme.signed (negative : Bool) (w : Text) : List Lexeme :=
  if negative then [.operator .negate, .number w] else [.number w]

theorem derives_signed (s : Bool) (w : Text) :
    Derives .sum (Lexeme.signed s w) (.signed s w) := by
  have hmarked : Derives .marked [.number w] (.number w) := .widen (.widen (.number w))
  cases s with
  | false => exact .widen (.widen (.widen (.widen hmarked)))
  | true => exact .widen (.widen (.widen (.negate (.widen hmarked))))

theorem spells_signed (s : Bool) {w rest : Text} {ls : List Lexeme}
    (h : (Lexeme.number w).IsWrittenAs w)
    (hends : ∀ c ∈ rest.head?, (Lexeme.number w).goesOnWith c = false) (hrest : Spells ls rest) :
    Spells (Lexeme.signed s w ++ ls) (signText s ++ w ++ rest) := by
  have hnone : ∀ c ∈ ([] : Text), Text.isAsciiBlank c := by simp
  have hnumber : Spells (.number w :: ls) (w ++ rest) := @Spells.cons _ _ [] w _ hnone h hends hrest
  cases s with
  | false => exact hnumber
  | true => exact @Spells.cons _ _ [] ['-'] _ hnone (.sign (by decide)) (fun _ _ => rfl) hnumber

namespace Desk

variable {desk : Desk}

theorem compute_signed_eq (s : Bool) {w : Text} (h : (Lexeme.number w).IsWrittenAs w) :
    desk.compute (signText s ++ w) = (Tree.signed s w).result desk := by
  have hspells : Spells (Lexeme.signed s w) (signText s ++ w) := by
    have hnil : Spells [] [] := .nil (by simp)
    simpa using spells_signed s h (by simp) hnil
  refine compute_of_derives (derives_signed s w) hspells ?_ ?_
  · cases s <;> trivial
  · cases s <;> exact (by decide : 1 ≤ 5000)

/-- A numeral that the context rounds to one of its own numbers is that number, and with a minus
before it the opposite one. -/
theorem compute_signed (s : Bool) {w : Text} {c : Nat} {e : Int} {x : ℚ}
    (h : (Lexeme.number w).IsWrittenAs w) (hread : Decimal.read? w = some (.finite false c e))
    (hround : ∃ c' e', desk.context.round false c e = .finite false c' e' ∧ scaled c' e' = x ∧
      desk.context.Represents c' e') :
    ∃ r, desk.compute (signText s ++ w) = .ok r ∧ r.toRat? = some (if s then -x else x) := by
  obtain ⟨c', e', hround, rfl, hrepresents⟩ := hround
  have hnumber : (Tree.number w).value desk = .ok (.decimal (.finite false c' e')) := by
    rw [Tree.value, Operations.number, hread]
    exact congrArg (fun d => Except.ok (Value.decimal d)) hround
  rw [compute_signed_eq s h]
  cases s with
  | false => exact ⟨_, Tree.result_of_value hnumber rfl, rfl⟩
  | true =>
    obtain ⟨c'', e'', hminus, hscaled, -⟩ :=
      Context.round_of_scaled_eq hrepresents rfl (!false && c' != 0)
    have hnegate : (Tree.negate (.number w)).value desk =
        .ok (.decimal (.finite (!false && c' != 0) c'' e'')) := by
      rw [Tree.value, hnumber]
      exact congrArg (fun d => Except.ok (Value.decimal d)) hminus
    refine ⟨_, Tree.result_of_value hnegate rfl, ?_⟩
    by_cases hc : c' = 0
    · have hzero : scaled c' e' = 0 := Decimal.scaled_eq_zero_iff.2 hc
      simp [Value.toRat?, Decimal.toRat?, hc, hscaled.trans hzero, hc ▸ hzero]
    · simp [Value.toRat?, Decimal.toRat?, hc, hscaled]

theorem isStorable_of_represents {c : Nat} {e : Int} (h : desk.context.Represents c e) {c' k : Nat}
    (hscaled : scaled c' (-(k : Int)) = scaled c e) (hle : min e 0 ≤ -(k : Int)) :
    Decimal.isStorable c' (-(k : Int)) := by
  have htiny : (-999999999999999999 : Int) - (desk.precision.digits - 1) ≤ e := h.tiny_le
  have hmax : Decimal.leadingExponent c e ≤ 999999999999999999 := h.le_max
  have hdigits := desk.precision.le_max
  refine Decimal.isStorable_iff.2 ⟨?_, ?_⟩
  · show (-999999999999999999 : Int) - (999999999999999999 - 1) ≤ _
    omega
  · show Decimal.leadingExponent _ _ ≤ 999999999999999999
    by_cases hc : c' = 0
    · subst hc
      have : Numeral.digitCount 0 = 1 := by decide
      unfold Decimal.leadingExponent
      omega
    · rwa [Decimal.leadingExponent_eq hc hscaled]

/-- The plain text of a decimal of the context evaluates to the same number. -/
theorem compute_plain_decimal {s : Bool} {c : Nat} {e : Int} (h : desk.context.Represents c e)
    {w : Text} {c' k : Nat} (hnumeral : Decimal.IsNumeral w c' k)
    (hscaled : scaled c' (-(k : Int)) = scaled c e) (hle : min e 0 ≤ -(k : Int)) :
    ∃ r, desk.compute (signText s ++ w) = .ok r ∧ r.toRat? = (Decimal.finite s c e).toRat? :=
  compute_signed s hnumeral.isWrittenAs
    (hnumeral.read? (isStorable_of_represents h hscaled hle))
    (Context.round_of_scaled_eq h hscaled false)

/-- The digits of a whole number that is not too long evaluate to the rounded number. -/
theorem compute_plain_integer (desk : Desk) (s : Bool) {n : Nat}
    (h : n < 10 ^ Text.Integer.maxDigits) :
    ∃ r, desk.compute (signText s ++ Text.ofNat n) = .ok r ∧
      r.toRat? = some (if s then -(Numeral.roundHalfUp desk.precision.digits n : ℚ)
        else Numeral.roundHalfUp desk.precision.digits n) := by
  have hdigits : Numeral.digitCount n ≤ 4300 := by
    have : ¬ Text.Integer.maxDigits < Numeral.digitCount n := by
      rw [Numeral.lt_digitCount_iff (by decide)]
      omega
    exact Nat.le_of_not_lt this
  have hnumeral : Decimal.IsNumeral (Text.ofNat n) (Text.toNat (Text.ofNat n)) 0 :=
    .whole (Text.ofNat_ne_nil n) fun c hc => Text.isDigit_of_mem_ofNat hc
  rw [Text.toNat_ofNat] at hnumeral
  have hstorable : Decimal.isStorable n (-((0 : Nat) : Int)) := by
    refine Decimal.isStorable_iff.2 ⟨by decide, ?_⟩
    show 0 + (Numeral.digitCount n : Int) - 1 ≤ 999999999999999999
    omega
  refine compute_signed s hnumeral.isWrittenAs (hnumeral.read? hstorable) ?_
  refine Context.round_whole desk.holdsIntegers_context rfl ?_ false
  show (Numeral.digitCount n : Int) ≤ 999999999999999999
  omega

end Desk

/-! ## Plain text -/

theorem Value.plain_exact {n : Int} (h : ¬ (Value.exact n).IsTooLong) :
    (Value.exact n).plain = .ok (signText (n < 0) ++ Text.ofNat n.natAbs) := by
  have hlong : ¬ Text.Integer.isTooLong n := fun hlong => h (Text.Integer.isTooLong_iff.1 hlong)
  simp [Value.plain, Value.text, Text.Integer.write?, hlong, Text.ofInt_eq]

theorem Value.plain_eq {v : Value} (hfinite : v.isFinite) (hlong : ¬ v.IsTooLong) :
    ∃ s w, v.plain = .ok (signText s ++ w) ∧ (Lexeme.number w).IsWrittenAs w := by
  cases v with
  | exact n =>
    exact ⟨_, _, Value.plain_exact hlong,
      .whole (Text.ofNat_ne_nil _) fun c hc => Text.isDigit_of_mem_ofNat hc⟩
  | decimal d =>
    cases d with
    | finite s c e =>
      obtain ⟨w, c', k, hplain, hnumeral, -, -⟩ := Decimal.plain_eq s c e
      exact ⟨s, w, congrArg Except.ok hplain, hnumeral.isWrittenAs⟩
    | infinite s => cases hfinite
    | nan s signaling payload => cases hfinite

namespace Desk

/-- **Plain text is read back.** The plain text of a finite value, unless it is too long an integer,
is an optional minus and one numeral. It evaluates to the number of the value, if this is a decimal
that the context of the desk represents, and to the number rounded to the precision, a half going
up, if it is an integer. -/
theorem compute_plain (v : Value) (hfinite : v.isFinite) (hlong : ¬ v.IsTooLong) :
    ∃ s w, v.plain = .ok (signText s ++ w) ∧ (Lexeme.number w).IsWrittenAs w ∧
      ∀ desk : Desk,
        (∀ t c e, v = .decimal (.finite t c e) → desk.context.Represents c e →
          ∃ r, desk.compute (signText s ++ w) = .ok r ∧ r.toRat? = v.toRat?) ∧
        ∀ n, v = .exact n → ∃ r, desk.compute (signText s ++ w) = .ok r ∧
          r.toRat? = some (Decimal.signed (n < 0)
            (Numeral.roundHalfUp desk.precision.digits n.natAbs) : ℚ) := by
  cases v with
  | exact n =>
    refine ⟨_, _, Value.plain_exact hlong,
      .whole (Text.ofNat_ne_nil _) fun c hc => Text.isDigit_of_mem_ofNat hc, ?_⟩
    refine fun desk => ⟨nofun, ?_⟩
    rintro _ ⟨⟩
    have hlt : n.natAbs < 10 ^ Text.Integer.maxDigits := Nat.lt_of_not_le hlong
    obtain ⟨r, hr, hrat⟩ := compute_plain_integer desk (n < 0) hlt
    refine ⟨r, hr, hrat.trans ?_⟩
    by_cases hn : n < 0 <;> simp [Decimal.signed, hn]
  | decimal d =>
    cases d with
    | finite s c e =>
      obtain ⟨w, c', k, hplain, hnumeral, hscaled, hle⟩ := Decimal.plain_eq s c e
      refine ⟨s, w, congrArg Except.ok hplain, hnumeral.isWrittenAs, fun desk => ⟨?_, ?_⟩⟩
      · rintro _ _ _ ⟨⟩ h
        exact compute_plain_decimal h hnumeral hscaled hle
      · rintro n ⟨⟩
    | infinite s => cases hfinite
    | nan s signaling payload => cases hfinite

/-- At eight digits `-0.02500` is read back as it is, and -1234567850 with its last two digits
rounded, the half away from zero. -/
theorem compute_plain_negative :
    let desk : Desk := { precision := { digits := 8 } }
    (∃ r, desk.compute ['-', '0', '.', '0', '2', '5'] = .ok r ∧ r.toRat? = some (-1 / 40)) ∧
    ∃ r, desk.compute (Text.ofString "-1234567850") = .ok r ∧ r.toRat? = some (-1234567900) := by
  intro desk
  constructor
  · obtain ⟨s, w, hplain, -, hcompute⟩ :=
      compute_plain (.decimal (.finite true 2500 (-5))) rfl not_false
    have htext : ['-', '0', '.', '0', '2', '5'] = signText s ++ w := by
      have hdecimal : Value.plain (.decimal (.finite true 2500 (-5))) =
          .ok ['-', '0', '.', '0', '2', '5'] := by decide +kernel
      exact Except.ok.inj (hdecimal.symm.trans hplain)
    obtain ⟨r, hr, hrat⟩ := (hcompute desk).1 true 2500 (-5) rfl
      ⟨by decide +kernel, by decide +kernel, by decide +kernel⟩
    refine ⟨r, htext ▸ hr, hrat.trans ?_⟩
    norm_num [Value.toRat?, Decimal.toRat?, scaled]
  · have hlong : ¬ 10 ^ Text.Integer.maxDigits ≤ (-1234567850 : Int).natAbs := by decide +kernel
    obtain ⟨s, w, hplain, -, hcompute⟩ := compute_plain (.exact (-1234567850)) rfl hlong
    have htext : Text.ofString "-1234567850" = signText s ++ w := by
      have hinteger : Value.plain (.exact (-1234567850)) = .ok (Text.ofString "-1234567850") := by
        decide +kernel
      exact Except.ok.inj (hinteger.symm.trans hplain)
    obtain ⟨r, hr, hrat⟩ := (hcompute desk).2 _ rfl
    refine ⟨r, htext ▸ hr, hrat.trans ?_⟩
    have hround : Decimal.signed (decide ((-1234567850 : Int) < 0))
        (Numeral.roundHalfUp 8 (-1234567850 : Int).natAbs) = -1234567900 := by decide +kernel
    rw [show desk.precision.digits = 8 from rfl, hround]
    norm_num

end Desk

end DeskCalculator
