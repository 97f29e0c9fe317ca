import DeskCalculator.Proofs.Text.Integer
import Mathlib.Data.List.Induction

/-!
# Numbers in place

Digits with or without a point among them are how every number is written, with an exponent behind
them or not. `IsPositional w c k` says that `w` is such a text, that its digits make up the number
`c`, and that `k` of them stand behind the point. Each writer has a lemma that tells what it writes
(`isPositional_fixed`, `isPositional_withLeadingPoint`), and each reader one that tells what it
makes of it. The number and its places determine the text (`IsPositional.eq`).
-/

namespace DeskCalculator

namespace Text

theorem toNat_of_isDigit {c : Char} (h : c.isDigit) : 48 ≤ c.toNat ∧ c.toNat ≤ 57 := by
  simpa [Char.isDigit, UInt32.le_iff_toNat_le] using h

theorem toNat_singleton (c : Char) : toNat [c] = c.toNat - 48 := by
  simp [toNat, Nat.ofDigitChars_cons]

theorem toNat_append (t u : Text) : toNat (t ++ u) = 10 ^ u.length * toNat t + toNat u := by
  rw [toNat, Nat.ofDigitChars_append, Nat.ofDigitChars_eq_ofDigitChars_zero]
  rfl

theorem toNat_append_zeros (digits : Text) (k : Nat) :
    toNat (digits ++ List.replicate k '0') = toNat digits * 10 ^ k := by
  simp [toNat, Nat.ofDigitChars_append, Nat.mul_comm]

theorem toNat_zeros_append (k : Nat) (digits : Text) :
    toNat (List.replicate k '0' ++ digits) = toNat digits := by
  simp [toNat, Nat.ofDigitChars_append]

theorem isDigit_of_mem_zeros {k : Nat} {c : Char} (h : c ∈ List.replicate k '0') : c.isDigit := by
  rw [List.eq_of_mem_replicate h]
  rfl

theorem toNat_lt {t : Text} (h : ∀ c ∈ t, c.isDigit) : toNat t < 10 ^ t.length := by
  induction t using List.reverseRecOn with
  | nil => simp [toNat]
  | append_singleton t c ih =>
    have ih := ih fun d hd => h d (List.mem_append_left _ hd)
    have hc := toNat_of_isDigit (h c (by simp))
    rw [toNat_append, toNat_singleton, List.length_append, List.length_singleton, Nat.pow_succ]
    omega

theorem eq_of_toNat_eq {t u : Text} (ht : ∀ c ∈ t, c.isDigit) (hu : ∀ c ∈ u, c.isDigit)
    (hlength : t.length = u.length) (h : toNat t = toNat u) : t = u := by
  induction t using List.reverseRecOn generalizing u with
  | nil => exact (List.length_eq_zero_iff.1 hlength.symm).symm
  | append_singleton t c ih =>
    rcases List.eq_nil_or_concat u with rfl | ⟨u, d, rfl⟩
    · simp at hlength
    rw [List.concat_eq_append] at *
    have hc := toNat_of_isDigit (ht c (by simp))
    have hd := toNat_of_isDigit (hu d (by simp))
    rw [toNat_append, toNat_append, toNat_singleton, toNat_singleton, List.length_singleton,
      List.length_singleton] at h
    have hcode : c.toNat = d.toNat := by omega
    rw [ih (fun e he => ht e (List.mem_append_left _ he))
      (fun e he => hu e (List.mem_append_left _ he)) (by simpa using hlength) (by omega),
      Char.toNat_inj.1 hcode]

theorem toNat_mod_ten {t : Text} (h : ∀ c ∈ t, c.isDigit) {c : Char} (hlast : t.getLast? = some c)
    (hc : c ≠ '0') : toNat t % 10 ≠ 0 := by
  obtain ⟨front, rfl⟩ := List.getLast?_eq_some_iff.1 hlast
  have hdigit := toNat_of_isDigit (h c (by simp))
  have hzero : c.toNat ≠ 48 := fun heq => hc (Char.toNat_inj.1 heq)
  rw [toNat_append, toNat_singleton, List.length_singleton]
  omega

/-- A whole number with no zero at its front but the one that it consists of. -/
structure IsWhole (t : Text) : Prop where
  ne_nil : t ≠ []
  isDigit : ∀ c ∈ t, c.isDigit
  head : t = ['0'] ∨ t.head? ≠ some '0'

theorem isWhole_singleton {c : Char} (h : c.isDigit) : IsWhole [c] where
  ne_nil := by simp
  isDigit := by simpa using h
  head := by
    by_cases hc : c = '0'
    · exact .inl (by rw [hc])
    · exact .inr (by simpa using hc)

theorem isWhole_ofNat (n : Nat) : IsWhole (ofNat n) where
  ne_nil := ofNat_ne_nil n
  isDigit _ := isDigit_of_mem_ofNat
  head := by
    by_cases hn : n = 0
    · subst hn
      exact .inl rfl
    · exact .inr (head_ofNat_ne hn)

theorem IsWhole.take {t : Text} (h : t.IsWhole) {k : Nat} (hk : k ≠ 0) : IsWhole (t.take k) where
  ne_nil hnil := (List.take_eq_nil_iff.1 hnil).elim hk h.ne_nil
  isDigit c hc := h.isDigit c (List.mem_of_mem_take hc)
  head := by
    rcases h.head with rfl | hne
    · obtain ⟨k, rfl⟩ := Nat.exists_eq_succ_of_ne_zero hk
      exact .inl (by simp)
    · rw [List.head?_take, if_neg hk]
      exact .inr hne

theorem IsWhole.append {t : Text} (h : t.head? ≠ some '0') (hne : t ≠ [])
    (hdigit : ∀ c ∈ t, c.isDigit) {more : Text} (hmore : ∀ c ∈ more, c.isDigit) :
    IsWhole (t ++ more) where
  ne_nil := by simp [hne]
  isDigit c hc := (List.mem_append.1 hc).elim (hdigit c) (hmore c)
  head := by
    cases t with
    | nil => exact absurd rfl hne
    | cons c t => exact .inr h

theorem IsWhole.eq_ofNat {t : Text} (h : t.IsWhole) : t = ofNat (toNat t) := by
  rcases h.head with rfl | hhead
  · rfl
  have hpos := List.length_pos_iff.2 h.ne_nil
  refine eq_of_toNat_eq h.isDigit (fun _ => isDigit_of_mem_ofNat) ?_ (toNat_ofNat _).symm
  refine Nat.le_antisymm ?_ ((length_ofNat_le_iff hpos).2 (toNat_lt h.isDigit))
  obtain ⟨c, t, rfl⟩ := List.exists_cons_of_ne_nil h.ne_nil
  have hc := toNat_of_isDigit (h.isDigit c List.mem_cons_self)
  have hne : c.toNat ≠ 48 := by
    intro heq
    obtain rfl : c = '0' := Char.toNat_inj.1 heq
    exact hhead rfl
  have hge : 10 ^ t.length ≤ toNat (c :: t) := by
    rw [← List.singleton_append, toNat_append, toNat_singleton]
    exact Nat.le_add_right_of_le (Nat.le_mul_of_pos_right _ (by omega))
  by_contra hshort
  rw [List.length_cons] at hshort
  rcases Nat.eq_zero_or_pos t.length with hzero | ht
  · have := List.length_pos_iff.2 (ofNat_ne_nil (toNat (c :: t)))
    omega
  · have := (length_ofNat_le_iff (n := toNat (c :: t)) ht).1 (by omega)
    omega

end Text

namespace Decimal

/-- The places behind the point, with the point if there are any. -/
def pointed : Text → Text
  | [] => []
  | c :: places => '.' :: c :: places

/-- A number in place, its digits as a whole number, and how many of them are places. -/
inductive IsPositional : Text → Nat → Nat → Prop where
  | intro {front back : Text} : front.IsWhole → (∀ c ∈ back, c.isDigit) →
    IsPositional (front ++ pointed back) (Text.toNat (front ++ back)) back.length

theorem IsPositional.of_eq {front back : Text} {c : Nat} (hfront : front.IsWhole)
    (hback : ∀ c ∈ back, c.isDigit) (hvalue : Text.toNat (front ++ back) = c) :
    IsPositional (front ++ pointed back) c back.length :=
  hvalue ▸ .intro hfront hback

theorem IsPositional.eq {w w' : Text} {c k : Nat} (h : IsPositional w c k)
    (h' : IsPositional w' c k) : w = w' := by
  generalize hc : c = c', hk : k = k' at h'
  obtain @⟨front, back, hfront, hback⟩ := h
  obtain @⟨front', back', hfront', hback'⟩ := h'
  have hlt := hk ▸ Text.toNat_lt hback
  have hlt' := Text.toNat_lt hback'
  rw [Text.toNat_append, Text.toNat_append, hk] at hc
  have hfronts : Text.toNat front = Text.toNat front' := by
    have hpow : 0 < 10 ^ back'.length := Nat.pow_pos (by decide)
    have hdiv := congrArg (· / 10 ^ back'.length) hc
    simpa [Nat.mul_add_div hpow, Nat.div_eq_of_lt hlt, Nat.div_eq_of_lt hlt'] using hdiv
  rw [hfronts, Nat.add_left_cancel_iff] at hc
  rw [hfront.eq_ofNat, hfront'.eq_ofNat, hfronts, Text.eq_of_toNat_eq hback hback' hk hc]

theorem isPositional_ofNat (c : Nat) : IsPositional (Text.ofNat c) c 0 := by
  have hvalue : Text.toNat (Text.ofNat c ++ []) = c := by rw [List.append_nil, Text.toNat_ofNat]
  simpa [pointed] using IsPositional.of_eq (Text.isWhole_ofNat c) (by simp) hvalue

theorem withPoint_eq (c : Nat) {places : Nat} (h : places ≠ 0) : ∃ front back : Text,
    withPoint (Text.ofNat c) places = front ++ '.' :: back ∧ front.IsWhole ∧
    back.length = places ∧ (∀ d ∈ front ++ back, d.isDigit) ∧ Text.toNat (front ++ back) = c := by
  have hpadded (d : Char) (hd : d ∈ List.replicate (places + 1 - (Text.ofNat c).length) '0' ++
      Text.ofNat c) : d.isDigit :=
    (List.mem_append.1 hd).elim Text.isDigit_of_mem_zeros Text.isDigit_of_mem_ofNat
  refine ⟨_, _, by rw [withPoint, if_neg h], ?_, ?_, ?_, ?_⟩
  · by_cases hlength : (Text.ofNat c).length ≤ places
    · obtain ⟨k, hk⟩ := Nat.exists_eq_add_one.2
        (show 0 < places + 1 - (Text.ofNat c).length by omega)
      have hone : k + 1 + (Text.ofNat c).length - places = 1 := by omega
      rw [hk, List.length_append, List.length_replicate, hone]
      exact Text.isWhole_singleton rfl
    · have hzero : places + 1 - (Text.ofNat c).length = 0 := by omega
      rw [hzero, List.replicate_zero, List.nil_append]
      exact (Text.isWhole_ofNat c).take (by omega)
  · simp
    omega
  · rwa [List.take_append_drop]
  · rw [List.take_append_drop, Text.toNat_zeros_append, Text.toNat_ofNat]

theorem isPositional_withPoint (c places : Nat) :
    IsPositional (withPoint (Text.ofNat c) places) c places := by
  by_cases h : places = 0
  · subst h
    simpa [withPoint] using isPositional_ofNat c
  · obtain ⟨front, back, hpoint, hfront, hlength, hdigits, hvalue⟩ := withPoint_eq c h
    have hpointed : pointed back = '.' :: back := by
      cases back with
      | nil => exact absurd hlength.symm h
      | cons d back => rfl
    rw [hpoint, ← hpointed, ← hlength]
    exact .of_eq hfront (fun d hd => hdigits d (List.mem_append_right _ hd)) hvalue

theorem isPositional_fixed (s : Bool) (c : Nat) (e : Int) : ∃ w,
    (finite s c e).fixed = signText s ++ w ∧ IsPositional w (c * 10 ^ e.toNat) (-e).toNat := by
  by_cases he : 0 < e
  · rw [show (-e).toNat = 0 by omega]
    by_cases hc : c = 0
    · refine ⟨['0'], by rw [fixed, if_pos ⟨hc, he⟩], ?_⟩
      rw [hc, Nat.zero_mul]
      exact isPositional_ofNat 0
    · refine ⟨_, by rw [fixed, if_neg (by omega), if_pos he], ?_⟩
      have hfront : (Text.ofNat c ++ List.replicate e.toNat '0').IsWhole :=
        .append (Text.head_ofNat_ne hc) (Text.ofNat_ne_nil c) (fun _ => Text.isDigit_of_mem_ofNat)
          fun _ => Text.isDigit_of_mem_zeros
      have hvalue : Text.toNat (Text.ofNat c ++ List.replicate e.toNat '0' ++ []) =
          c * 10 ^ e.toNat := by
        rw [List.append_nil, Text.toNat_append_zeros, Text.toNat_ofNat]
      simpa [pointed] using IsPositional.of_eq hfront (by simp) hvalue
  · refine ⟨_, by rw [fixed, if_neg (by omega), if_neg he], ?_⟩
    rw [show e.toNat = 0 by omega, Nat.pow_zero, Nat.mul_one]
    exact isPositional_withPoint c _

theorem isPositional_withLeadingPoint (c : Nat) :
    IsPositional (withLeadingPoint (Text.ofNat c)) c ((Text.ofNat c).length - 1) := by
  have hdigits : ∀ d ∈ Text.ofNat c, d.isDigit := fun d => Text.isDigit_of_mem_ofNat
  have hvalue := Text.toNat_ofNat c
  match h : Text.ofNat c with
  | [] => exact absurd h (Text.ofNat_ne_nil c)
  | d :: back =>
    rw [h] at hdigits hvalue
    obtain ⟨hd, hback⟩ := List.forall_mem_cons.1 hdigits
    have hpoint : withLeadingPoint (d :: back) = [d] ++ pointed back := by cases back <;> rfl
    rw [hpoint]
    exact .of_eq (Text.isWhole_singleton hd) hback hvalue

end Decimal

end DeskCalculator
