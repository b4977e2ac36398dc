import BoundaryAtlas.Proofs.Json.Printed

/-!
# Printed floats

The digits of a float are found by a search, and reading rounds them. That this gives the float
again is taken from outside; that it is then read inside any document follows from it.
-/

namespace BoundaryAtlas

namespace Json

/-! ## What a number leaves -/

section Splits

variable {cs found left : List Char}

theorem eq_append_of_takeDigits (h : takeDigits cs = some (found, left)) : cs = found ++ left := by
  unfold takeDigits at h
  split at h
  · cases h
  · obtain ⟨rfl, rfl⟩ := Prod.mk.inj (Option.some.inj h)
    exact List.takeWhile_append_dropWhile.symm

theorem eq_append_of_takeWhole (h : takeWhole cs = some (found, left)) : cs = found ++ left := by
  unfold takeWhole at h
  split at h
  · cases h
  · exact eq_append_of_takeDigits h

theorem eq_append_of_takeFraction (h : takeFraction cs = some (found, left)) :
    cs = found ++ left := by
  unfold takeFraction at h
  split at h
  · obtain ⟨⟨ds, after⟩, hds, heq⟩ := Option.map_eq_some_iff.mp h
    obtain ⟨rfl, rfl⟩ := Prod.mk.inj heq
    rw [eq_append_of_takeDigits hds]
    rfl
  · obtain ⟨rfl, rfl⟩ := Prod.mk.inj (Option.some.inj h)
    rfl

theorem eq_append_of_takeExponent (h : takeExponent cs = some (found, left)) :
    cs = found ++ left := by
  cases cs with
  | nil =>
    obtain ⟨rfl, rfl⟩ := Prod.mk.inj (Option.some.inj h)
    rfl
  | cons c cs =>
    rw [takeExponent] at h
    split at h
    · obtain ⟨sign, tail, hsign⟩ : ∃ sign tail, takeSign cs = (sign, tail) := ⟨_, _, rfl⟩
      have hsplit : cs = sign ++ tail := by
        unfold takeSign at hsign
        split at hsign <;> obtain ⟨rfl, rfl⟩ := Prod.mk.inj hsign <;> rfl
      rw [hsign] at h
      obtain ⟨⟨ds, after⟩, hds, heq⟩ := Option.map_eq_some_iff.mp h
      obtain ⟨rfl, rfl⟩ := Prod.mk.inj heq
      rw [hsplit, eq_append_of_takeDigits hds]
      simp
    · obtain ⟨rfl, rfl⟩ := Prod.mk.inj (Option.some.inj h)
      rfl

theorem eq_append_of_takeNumber (h : takeNumber cs = some (found, left)) : cs = found ++ left := by
  have hmagnitude : ∀ {cs found : List Char}, takeMagnitude cs = some (found, left) →
      cs = found ++ left := by
    intro cs found h
    obtain ⟨⟨whole, l⟩, hwhole, h⟩ := Option.bind_eq_some_iff.mp h
    obtain ⟨⟨fraction, l'⟩, hfraction, h⟩ := Option.bind_eq_some_iff.mp h
    obtain ⟨⟨exponent, l''⟩, hexponent, h⟩ := Option.bind_eq_some_iff.mp h
    obtain ⟨rfl, rfl⟩ := Prod.mk.inj (Option.some.inj h)
    rw [eq_append_of_takeWhole hwhole, eq_append_of_takeFraction hfraction,
      eq_append_of_takeExponent hexponent]
    simp
  unfold takeNumber at h
  split at h
  · obtain ⟨⟨spelling, after⟩, hspelling, heq⟩ := Option.map_eq_some_iff.mp h
    obtain ⟨rfl, rfl⟩ := Prod.mk.inj heq
    rw [hmagnitude hspelling]
    rfl
  · exact hmagnitude h

theorem takeNumber_of_takeValue {fuel : Nat} (h : takeValue fuel cs = some (.number found, left)) :
    takeNumber (skipBlanks cs) = some (found, left) := by
  cases fuel with
  | zero => cases h
  | succ fuel =>
    rw [takeValue] at h
    split at h
    · cases h
    · obtain ⟨x, -, heq⟩ := Option.map_eq_some_iff.mp h
      dsimp only at heq
      split at heq <;> cases heq
    · split at h
      · cases h
      · obtain ⟨x, -, heq⟩ := Option.map_eq_some_iff.mp h
        cases heq
    · split at h
      · cases h
      · obtain ⟨x, -, heq⟩ := Option.map_eq_some_iff.mp h
        cases heq
    iterate 3
      obtain ⟨x, -, heq⟩ := Option.map_eq_some_iff.mp h
      cases heq
    · obtain ⟨x, hx, heq⟩ := Option.map_eq_some_iff.mp h
      cases heq
      exact hx

end Splits

/-! ## Characters of a float -/

section Characters

open Decimal

theorem isBlank_of_mem_digitChars {n : Nat} : ∀ c ∈ digitChars n, isBlank c = false :=
  fun _ hc => isBlank_of_isDigit (.inr (isDigit_of_mem_digitChars hc))

theorem isBlank_of_mem_positionalText {digits : List Char} (h : ∀ c ∈ digits, isBlank c = false)
    (exponent : Int) (pointZero : Bool) :
    ∀ c ∈ positionalText digits exponent pointZero, isBlank c = false := by
  intro c hc
  have hpoint : isBlank '.' = false := rfl
  have hzero : isBlank '0' = false := rfl
  unfold positionalText at hc
  split at hc
  · rcases List.mem_append.mp hc with hc | hc
    · rcases List.mem_append.mp hc with hc | hc
      · exact h c hc
      · rwa [List.eq_of_mem_replicate hc]
    · cases pointZero with
      | true =>
        rcases (by simpa using hc : c = '.' ∨ c = '0') with rfl | rfl
        · exact hpoint
        · exact hzero
      | false => simp at hc
  · dsimp only at hc
    split at hc
    · rcases List.mem_append.mp hc with hc | hc
      · exact h c (List.mem_of_mem_take hc)
      · rcases List.mem_cons.mp hc with rfl | hc
        · exact hpoint
        · exact h c (List.mem_of_mem_drop hc)
    · rcases List.mem_append.mp hc with hc | hc
      · simp only [List.mem_cons] at hc
        rcases hc with rfl | rfl | hc
        · exact hzero
        · exact hpoint
        · rwa [List.eq_of_mem_replicate hc]
      · exact h c hc

theorem isBlank_of_mem_scientificText {digits : List Char} (h : ∀ c ∈ digits, isBlank c = false)
    (leading : Int) : ∀ c ∈ scientificText digits leading, isBlank c = false := by
  have hexponent : ∀ c ∈ 'e' :: (if leading < 0 then '-' else '+') ::
      digitChars leading.natAbs, isBlank c = false := by
    refine List.forall_mem_cons.mpr ⟨rfl, List.forall_mem_cons.mpr ⟨?_, isBlank_of_mem_digitChars⟩⟩
    split <;> rfl
  intro c hc
  unfold scientificText at hc
  dsimp only at hc
  split at hc
  · exact hexponent c hc
  · rcases List.mem_cons.mp hc with rfl | hc
    · exact h c List.mem_cons_self
    · exact hexponent c hc
  · rcases List.mem_append.mp hc with hc | hc
    · simp only [List.mem_cons] at hc
      rcases hc with rfl | rfl | hc
      · exact h c List.mem_cons_self
      · rfl
      · exact h c (List.mem_cons_of_mem _ hc)
    · exact hexponent c hc

theorem isBlank_of_mem_finite (layout : Layout) (x : Float) :
    ∀ c ∈ layout.finite x, isBlank c = false := by
  have hmagnitude : ∀ s c, c ∈ layout.magnitude s → isBlank c = false := by
    intro s c hc
    rw [Layout.magnitude] at hc
    split at hc
    · exact isBlank_of_mem_positionalText isBlank_of_mem_digitChars _ _ c hc
    · exact isBlank_of_mem_scientificText isBlank_of_mem_digitChars _ c hc
  intro c hc
  rw [Layout.finite] at hc
  split at hc
  · rcases List.mem_cons.mp hc with rfl | hc
    · rfl
    · exact hmagnitude _ c hc
  · exact hmagnitude _ c hc

end Characters

theorem skipBlanks_of_forall {cs : List Char} (h : ∀ c ∈ cs, isBlank c = false) :
    skipBlanks cs = cs := by
  cases cs with
  | nil => rfl
  | cons c cs => exact skipBlanks_cons (h c List.mem_cons_self) cs

theorem isSpelling_of_ofChars? {cs found : List Char} (hcs : ∀ c ∈ cs, isBlank c = false)
    (h : ofChars? cs = some (.number found)) : IsSpelling cs := by
  unfold ofChars? at h
  split at h
  · rename_i j left hvalue
    split at h
    · rename_i hempty
      obtain rfl := Option.some.inj h
      have hnumber := takeNumber_of_takeValue hvalue
      rw [skipBlanks_of_forall hcs] at hnumber
      have hsplit := eq_append_of_takeNumber hnumber
      have hleft : left = [] := by
        rw [skipBlanks_of_forall fun c hc => hcs c (hsplit ▸ List.mem_append_right _ hc)] at hempty
        exact List.isEmpty_iff.mp hempty
      rw [hleft, List.append_nil] at hsplit
      rwa [hleft, ← hsplit] at hnumber
    · cases h
  · cases h

/-- A float that reads back by itself reads back wherever it stands. -/
theorem isReadable_ofFloat {x : Float}
    (h : (ofString? (ofFloat x).compact).bind float? = some x) : IsReadable (ofFloat x) := by
  by_cases hfinite : x.isFinite = true
  · have hnumber : ofFloat x = .number (Decimal.json.finite x) := if_pos hfinite
    rw [hnumber] at h ⊢
    obtain ⟨j, hj, hfloat⟩ := Option.bind_eq_some_iff.mp h
    rw [ofString?, compact, String.toList_ofList, chars] at hj
    obtain ⟨found, rfl⟩ : ∃ found, j = .number found := by
      cases j with
      | number found => exact ⟨found, rfl⟩
      | _ => cases hfloat
    exact .number (isSpelling_of_ofChars? (isBlank_of_mem_finite Decimal.json x) hj)
  · have hnull : ofFloat x = .null := if_neg hfinite
    rw [hnull] at h
    cases h

end Json

end BoundaryAtlas
