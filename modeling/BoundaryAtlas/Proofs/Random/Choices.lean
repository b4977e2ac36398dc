import Mathlib.Data.List.Perm.Subperm
import BoundaryAtlas.Random.Source

/-!
# Choices stay in their range

A lawful source gives sets of the size that was asked for, and numbers up to their bound. The
keystream of ChaCha is lawful, whatever words it has.
-/

namespace BoundaryAtlas

/-- At each place of the stream the draw gives something with the property. -/
def Yields {ρ β : Type} (x : StateM ρ β) (P : β → Prop) : Prop := ∀ s, P (x s).1

namespace Yields

variable {ρ β γ : Type}

theorem pure {P : β → Prop} {b : β} (h : P b) : Yields (Pure.pure b : StateM ρ β) P := fun _ => h

theorem bind {P : β → Prop} {Q : γ → Prop} {x : StateM ρ β} {f : β → StateM ρ γ} (hx : Yields x P)
    (hf : ∀ b, P b → Yields (f b) Q) : Yields (x >>= f) Q :=
  fun s => hf (x s).1 (hx s) (x s).2

theorem any (x : StateM ρ β) : Yields x fun _ => True := fun _ => trivial

end Yields

/-- What the sampler relies on. -/
structure RandomSource.IsLawful (R : RandomSource) : Prop where
  indexSet : ∀ length amount, amount ≤ length → Yields (R.indexSet length amount) fun taken =>
    taken.Nodup ∧ taken.length = amount ∧ ∀ t ∈ taken, t < length
  upTo : ∀ hi, Yields (R.upTo hi) (· ≤ hi)

namespace Random

/-! ## Words and scaled words -/

theorem word32_lt : Yields word32 (· < twoPow 32) := by
  intro s
  unfold word32
  split
  · exact UInt32.toNat_lt _
  · split
    · exact UInt32.toNat_lt _
    · exact Nat.pow_pos (by decide)

theorem word64_lt : Yields word64 (· < twoPow 64) := by
  refine word32_lt.bind fun low hlow => word32_lt.bind fun high hhigh => .pure ?_
  simp only [twoPow, Nat.pow_eq] at *
  omega

theorem scaled_lt {word : Draw Nat} {bits : Nat} (hword : Yields word (· < twoPow bits))
    {range : Nat} (hrange : 0 < range) (zone tries : Nat) :
    Yields (scaled word bits range zone tries) (· < range) := by
  induction tries with
  | zero => exact .pure hrange
  | succ tries ih =>
    refine hword.bind fun w hw => ?_
    dsimp only
    split
    · refine .pure (Nat.div_lt_of_lt_mul ?_)
      exact Nat.mul_lt_mul_of_pos_right hw hrange
    · exact ih

theorem between_le (hi : Nat) : Yields (between 0 hi) (· ≤ hi) := by
  unfold between
  have hmod : (hi - 0 + 1) % twoPow 32 ≤ hi + 1 := Nat.mod_le _ _
  dsimp only
  split
  · rename_i hzero
    intro s
    have hword := word32_lt s
    have hdvd : twoPow 32 ≤ hi - 0 + 1 := Nat.le_of_dvd (Nat.succ_pos _) (Nat.dvd_of_mod_eq_zero hzero)
    omega
  · rename_i hpos
    refine (scaled_lt word32_lt (Nat.pos_of_ne_zero hpos) _ _).bind fun c hc => .pure ?_
    omega

theorem below_lt {word : Draw Nat} {bits : Nat} (hword : Yields word (· < twoPow bits)) {n : Nat}
    (hn : 0 < n) : Yields (below word bits n) (· < n) :=
  scaled_lt hword hn _ _

/-! ## Sets of indices -/

/-- Some distinct indices below `length`. -/
structure IsIndexSet (length : Nat) (taken : List Nat) : Prop where
  nodup : taken.Nodup
  lt : ∀ t ∈ taken, t < length

namespace IsIndexSet

variable {length : Nat} {taken : List Nat}

theorem nil : IsIndexSet length [] := ⟨.nil, by simp⟩

theorem cons (h : IsIndexSet length taken) {t : Nat} (hnew : t ∉ taken) (ht : t < length) :
    IsIndexSet length (t :: taken) :=
  ⟨List.nodup_cons.mpr ⟨hnew, h.nodup⟩, List.forall_mem_cons.mpr ⟨ht, h.lt⟩⟩

theorem mono (h : IsIndexSet length taken) {length' : Nat} (hle : length ≤ length') :
    IsIndexSet length' taken :=
  ⟨h.nodup, fun t ht => Nat.lt_of_lt_of_le (h.lt t ht) hle⟩

theorem fill (h : IsIndexSet length taken) (amount : Nat) :
    IsIndexSet length (((List.range length).filter (!taken.contains ·)).take amount ++ taken) := by
  have hfree (t : Nat)
      (ht : t ∈ ((List.range length).filter (!taken.contains ·)).take amount) :
      t < length ∧ t ∉ taken := by
    simpa using List.mem_filter.mp (List.mem_of_mem_take ht)
  refine ⟨List.nodup_append.mpr ⟨?_, h.nodup, fun t ht u hu => ?_⟩, fun t ht => ?_⟩
  · exact (List.nodup_range.filter _).sublist (List.take_sublist _ _)
  · exact ne_of_mem_of_not_mem hu (hfree t ht).2 |>.symm
  · rcases List.mem_append.mp ht with ht | ht
    · exact (hfree t ht).1
    · exact h.lt t ht

theorem length_fill {amount : Nat} (hle : taken.length + amount ≤ length) :
    (((List.range length).filter (!taken.contains ·)).take amount ++ taken).length =
      taken.length + amount := by
  have hsplit := List.length_eq_length_filter_add (l := List.range length) (taken.contains ·)
  have hused : ((List.range length).filter (taken.contains ·)).length ≤ taken.length := by
    refine (List.subperm_of_subset (List.nodup_range.filter _) fun t ht => ?_).length_le
    simpa using (List.mem_filter.mp ht).2
  rw [List.length_range] at hsplit
  rw [List.length_append, List.length_take]
  omega

end IsIndexSet

theorem growSet_isIndexSet (length amount : Nat) (taken : List Nat) (hle : amount ≤ length)
    (htaken : IsIndexSet (length - amount) taken) :
    Yields (growSet length amount taken) (IsIndexSet length) := by
  induction amount generalizing taken with
  | zero => exact .pure htaken
  | succ amount ih =>
    refine (between_le _).bind fun t ht => ih _ (by omega) ?_
    have hmore : length - (amount + 1) < length - amount := by omega
    have hkept := htaken.mono (Nat.le_of_lt hmore)
    split
    · refine hkept.cons (fun hmem => ?_) hmore
      exact Nat.lt_irrefl _ (htaken.lt _ hmem)
    · rename_i hnew
      exact hkept.cons (by simpa using hnew) (by omega)

theorem untilDistinct_isIndexSet {draw : Draw Nat} {length : Nat}
    (hdraw : 0 < length → Yields draw (· < length)) (tries amount : Nat) (taken : List Nat)
    (hle : amount ≤ length) (htaken : IsIndexSet length taken) :
    Yields (untilDistinct draw length tries amount taken) (IsIndexSet length) := by
  fun_induction untilDistinct draw length tries amount taken with
  | case1 => exact .pure htaken
  | case2 amount taken => exact .pure (htaken.fill (amount + 1))
  | case3 tries amount taken ih₁ ih₂ =>
    refine (hdraw (by omega)).bind fun t ht => ?_
    split
    · exact ih₁ hle htaken
    · rename_i hnew
      exact ih₂ t (by omega) (htaken.cons (by simpa using hnew) ht)

theorem swapIfInBounds_perm (a : Array Nat) (i j : Nat) :
    (a.swapIfInBounds i j).toList.Perm a.toList := by
  unfold Array.swapIfInBounds
  split
  · split
    · exact (Array.swap_perm _ _).toList
    · exact .refl _
  · exact .refl _

theorem shuffleFront_perm (length amount i : Nat) (a : Array Nat) :
    Yields (shuffleFront length amount i a) (·.toList.Perm a.toList) := by
  induction amount generalizing i a with
  | zero => exact .pure (.refl _)
  | succ amount ih =>
    refine (Yields.any _).bind fun j _ s => ?_
    exact (ih (i + 1) (a.swapIfInBounds i j) s).trans (swapIfInBounds_perm a i j)

theorem isIndexSet_take {length : Nat} (amount : Nat) (a : Array Nat)
    (h : a.toList.Perm (Array.range length).toList) :
    IsIndexSet length (a.take amount).toList := by
  have hsub : (a.take amount).toList.Sublist a.toList := by
    simpa using List.take_sublist amount a.toList
  rw [Array.toList_range] at h
  refine ⟨(h.nodup_iff.mpr List.nodup_range).sublist hsub, fun t ht => ?_⟩
  exact List.mem_range.mp (h.subset (hsub.subset ht))

/-- **Index sets.** By whichever method, the indices are distinct and below the length. -/
theorem indexSet_isIndexSet (length amount : Nat) (hle : amount ≤ length) :
    Yields (indexSet length amount) (IsIndexSet length) := by
  unfold indexSet
  split
  · refine (growSet_isIndexSet length _ [] hle .nil).bind fun taken htaken => ?_
    split
    · exact (Yields.any _).bind fun _ _ => .pure htaken
    · exact .pure htaken
  · refine (shuffleFront_perm length _ 0 _).bind fun a ha => .pure ?_
    exact isIndexSet_take _ a ha
  · exact untilDistinct_isIndexSet (below_lt word32_lt) _ _ _ hle .nil
  · exact untilDistinct_isIndexSet (below_lt word64_lt) _ _ _ hle .nil

/-! ## How many indices there are -/

theorem length_growSet (length amount : Nat) (taken : List Nat) :
    Yields (growSet length amount taken) (·.length = taken.length + amount) := by
  induction amount generalizing taken with
  | zero => exact .pure rfl
  | succ amount ih =>
    refine (Yields.any _).bind fun t _ s => ?_
    have hrest := ih (if taken.contains t then (length - (amount + 1)) :: taken else t :: taken) s
    have hone : (if taken.contains t then (length - (amount + 1)) :: taken else t :: taken).length =
        taken.length + 1 := by
      split <;> rfl
    dsimp only at hrest ⊢
    omega

theorem length_untilDistinct (draw : Draw Nat) (length tries amount : Nat) (taken : List Nat)
    (hle : taken.length + amount ≤ length) :
    Yields (untilDistinct draw length tries amount taken) (·.length = taken.length + amount) := by
  fun_induction untilDistinct draw length tries amount taken with
  | case1 => exact .pure rfl
  | case2 amount taken => exact .pure (IsIndexSet.length_fill hle)
  | case3 tries amount taken ih₁ ih₂ =>
    refine (Yields.any _).bind fun t _ => ?_
    split
    · exact ih₁ hle
    · intro s
      have hrest := ih₂ t (by rw [List.length_cons]; omega) s
      rw [List.length_cons] at hrest
      omega

theorem length_indexSet (length amount : Nat) (hle : amount ≤ length) :
    Yields (indexSet length amount) (·.length = amount) := by
  have hgrow := length_growSet length amount []
  have hreject (draw : Draw Nat) (tries : Nat) :=
    length_untilDistinct draw length tries amount [] (by simpa using hle)
  simp only [List.length_nil, Nat.zero_add] at hgrow hreject
  unfold indexSet
  split
  · refine hgrow.bind fun taken htaken => ?_
    split
    · exact (Yields.any _).bind fun _ _ => .pure htaken
    · exact .pure htaken
  · refine (shuffleFront_perm length _ 0 _).bind fun a ha => .pure ?_
    have hsize : a.size = length := by simpa using ha.length_eq
    have htake : (a.take amount).toList.length = min amount a.size := by simp
    omega
  · exact hreject _ _
  · exact hreject _ _

theorem chaCha_isLawful : chaCha.IsLawful where
  indexSet length amount hle s :=
    have hset := indexSet_isIndexSet length amount hle s
    ⟨hset.nodup, length_indexSet length amount hle s, hset.lt⟩
  upTo := between_le

end Random

end BoundaryAtlas
