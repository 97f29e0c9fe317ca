import DeskCalculator.Proofs.Json.RoundTrip

/-!
# Whatever is read is regular

A number that is read is an integer that is not too long or a double as rounding gives it, and a key
that comes again only gets another value. So every value that is read can be written and read again
(`isRegular_of_read?`).
-/

namespace DeskCalculator

namespace Json

variable {s : Bool} {v : Json} {t rest : Text} {fuel : Nat}

/-! ## Numbers -/

theorem isDigit_of_readWhole {whole : Text} (h : readWhole t = some (whole, rest)) :
    ∀ c ∈ whole, c.isDigit := by
  rw [readWhole.eq_def] at h
  split at h
  · cases h
    exact List.all_eq_true.1 rfl
  · split at h
    · rw [List.span_eq_takeWhile_dropWhile] at h
      cases h
      exact List.all_eq_true.1 List.all_takeWhile
    · cases h
  · cases h

theorem isRegular_of_readNumber (h : readNumber s t = some (v, rest)) : v.IsRegular := by
  obtain ⟨⟨whole, after⟩, hwhole, h⟩ := Option.bind_eq_some_iff.1 h
  simp only at h
  split at h
  · split at h
    · rename_i hlength
      cases h
      refine .integer ?_
      rw [Text.Integer.isTooLong_iff]
      have hlt := Text.toNat_lt (isDigit_of_readWhole hwhole)
      have hle := Nat.pow_le_pow_right (show 0 < 10 by decide) hlength
      split <;> omega
    · cases h
  · cases h
    exact .number (Double.isCanonical_ofScientific _ _ _)

/-! ## Members -/

theorem map_setMember (key : Text) (value : Json) (members : List (Text × Json)) :
    (setMember key value members).map (·.1) =
      if key ∈ members.map (·.1) then members.map (·.1) else members.map (·.1) ++ [key] := by
  induction members with
  | nil => rfl
  | cons m members ih =>
    obtain ⟨k, value'⟩ := m
    by_cases hk : k = key
    · simp [setMember, hk]
    · have hne : key ≠ k := Ne.symm hk
      simp only [setMember, if_neg hk, List.map_cons, ih, List.mem_cons, hne, false_or]
      split <;> rfl

theorem mem_setMember {key : Text} {value : Json} {members : List (Text × Json)} {m : Text × Json}
    (h : m ∈ setMember key value members) : m.2 = value ∨ m ∈ members := by
  induction members with
  | nil =>
    rw [List.mem_singleton.1 h]
    exact .inl rfl
  | cons m' members ih =>
    obtain ⟨k, value'⟩ := m'
    rw [setMember] at h
    split at h
    · rcases List.mem_cons.1 h with rfl | h
      · exact .inl rfl
      · exact .inr (List.mem_cons_of_mem _ h)
    · rcases List.mem_cons.1 h with rfl | h
      · exact .inr List.mem_cons_self
      · exact (ih h).imp_right (List.mem_cons_of_mem _)

structure AreRegular (members : List (Text × Json)) : Prop where
  nodup : (members.map (·.1)).Nodup
  isRegular : ∀ m ∈ members, m.2.IsRegular

theorem AreRegular.setMember {members : List (Text × Json)} (h : AreRegular members) (key : Text)
    {value : Json} (hvalue : value.IsRegular) : AreRegular (setMember key value members) where
  nodup := by
    rw [map_setMember]
    split
    · exact h.nodup
    · rename_i hkey
      exact List.nodup_append.2 ⟨h.nodup, by simp, by rintro k hk _ hmem rfl; simp_all⟩
  isRegular m hm := by
    rcases mem_setMember hm with heq | hm
    · exact heq ▸ hvalue
    · exact h.isRegular m hm

/-! ## Values -/

theorem isRegular_of_map_after? {word : String} {f : Text → Json × Text}
    (hf : ∀ rest, (f rest).1.IsRegular) (h : (after? word t).map f = some (v, rest)) :
    v.IsRegular := by
  obtain ⟨rest', -, h⟩ := Option.map_eq_some_iff.1 h
  exact (congrArg Prod.fst h).subst (hf rest')

structure ReadsRegular (fuel : Nat) : Prop where
  value : ∀ {t v rest}, readValue fuel t = some (v, rest) → v.IsRegular
  items : ∀ {t items rest}, readItems fuel t = some (items, rest) → ∀ item ∈ items, item.IsRegular
  members : ∀ {before t members rest}, readMembers fuel before t = some (members, rest) →
    AreRegular before → AreRegular members

theorem ReadsRegular.readValue (h : ReadsRegular fuel)
    (hread : readValue (fuel + 1) t = some (v, rest)) : v.IsRegular := by
  rw [Json.readValue.eq_def] at hread
  simp only at hread
  split at hread
  · obtain ⟨_, -, heq⟩ := Option.map_eq_some_iff.1 hread
    cases heq
    exact .string _
  · split at hread
    · cases hread
      exact .array (by simp)
    · obtain ⟨⟨items, rest'⟩, hitems, heq⟩ := Option.map_eq_some_iff.1 hread
      cases heq
      exact .array (h.items hitems)
  · split at hread
    · cases hread
      exact .object (by simp) (by simp)
    · obtain ⟨⟨members, rest'⟩, hmembers, heq⟩ := Option.map_eq_some_iff.1 hread
      cases heq
      have hregular := h.members hmembers ⟨by simp, by simp⟩
      exact .object hregular.nodup hregular.isRegular
  · exact isRegular_of_map_after? (fun _ => .null) hread
  · exact isRegular_of_map_after? (fun _ => .bool true) hread
  · exact isRegular_of_map_after? (fun _ => .bool false) hread
  · exact isRegular_of_map_after? (fun _ => @IsRegular.number .nan trivial) hread
  · exact isRegular_of_map_after? (fun _ => @IsRegular.number (.infinite false) trivial) hread
  · exact isRegular_of_map_after? (fun _ => @IsRegular.number (.infinite true) trivial) hread
  · exact isRegular_of_readNumber hread
  · exact isRegular_of_readNumber hread

theorem ReadsRegular.readItems (h : ReadsRegular fuel) {items : List Json}
    (hread : readItems (fuel + 1) t = some (items, rest)) : ∀ item ∈ items, item.IsRegular := by
  rw [Json.readItems] at hread
  obtain ⟨⟨item, rest'⟩, hitem, hread⟩ := Option.bind_eq_some_iff.1 hread
  simp only at hread
  split at hread
  · obtain ⟨⟨items', rest''⟩, hitems, heq⟩ := Option.bind_eq_some_iff.1 hread
    cases heq
    exact List.forall_mem_cons.2 ⟨h.value hitem, h.items hitems⟩
  · cases hread
    simpa using h.value hitem
  · cases hread

theorem ReadsRegular.readMembers (h : ReadsRegular fuel) {before members : List (Text × Json)}
    (hread : readMembers (fuel + 1) before t = some (members, rest)) (hbefore : AreRegular before) :
    AreRegular members := by
  rw [Json.readMembers.eq_def] at hread
  simp only at hread
  split at hread
  · obtain ⟨⟨key, rest'⟩, -, hread⟩ := Option.bind_eq_some_iff.1 hread
    simp only at hread
    split at hread
    · obtain ⟨⟨value, rest''⟩, hvalue, hread⟩ := Option.bind_eq_some_iff.1 hread
      have hset := hbefore.setMember key (h.value hvalue)
      simp only at hread
      split at hread
      · exact h.members hread hset
      · cases hread
        exact hset
      · cases hread
    · cases hread
  · cases hread

theorem readsRegular (fuel : Nat) : ReadsRegular fuel := by
  induction fuel with
  | zero => exact ⟨nofun, nofun, nofun⟩
  | succ fuel ih => exact ⟨ih.readValue, ih.readItems, ih.readMembers⟩

/-- **Whatever is read is regular.** -/
theorem isRegular_of_read? (h : read? t = some v) : v.IsRegular := by
  unfold read? at h
  split at h
  · rename_i hread
    split at h
    · cases h
      exact (readsRegular _).value hread
    · cases h
  · cases h

end Json

end DeskCalculator
