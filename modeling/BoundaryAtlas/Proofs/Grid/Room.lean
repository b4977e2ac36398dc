import BoundaryAtlas.Proofs.Grid.Place
import BoundaryAtlas.Proofs.Grid.Sampling
import BoundaryAtlas.Proofs.Grid.Zigzag
import BoundaryAtlas.Proofs.Atlas.Passes

/-!
# Room for kinks

A grid has a boundary with a given number of kinks exactly if that number is within the limit. More
kinks never fit, since a column keeps at most two points that bend. Any smaller number is reached by
a zigzag between the two lowest rows, so two rows are enough.
-/

namespace BoundaryAtlas

variable {α : Type}

/-! ## No boundary has more kinks -/

namespace GridBoundary

/-- A boundary that begins in the column of `p` bends at most twice for each column after it, and
once less if it leaves the column of `p` at once. -/
theorem turns_le_columns (numX : Nat) (p : GridPoint) (l : List GridPoint)
    (hord : (p :: l).IsChain fun p q => p.col ≤ q.col)
    (hends : ∀ z ∈ (p :: l).getLast?, z.col = numX) :
    turns (p :: l) + 2 * p.col + (if ∃ q ∈ l.head?, p.col < q.col then 1 else 0) ≤ 2 * numX := by
  induction l generalizing p with
  | nil =>
    have hp : p.col = numX := hends p rfl
    simp [turns, hp]
  | cons q l ih =>
    obtain ⟨hpq, hord⟩ := List.isChain_cons_cons.mp hord
    have ih := ih q hord fun z hz => hends z (by rwa [List.getLast?_cons_cons])
    simp only [List.head?_cons, Option.mem_def, Option.some.injEq, exists_eq_left']
    cases l with
    | nil =>
      simp only [turns] at ih ⊢
      split <;> omega
    | cons r l =>
      have hqr : q.col ≤ r.col := (List.isChain_cons_cons.mp hord).1
      simp only [turns, List.head?_cons, Option.mem_def, Option.some.injEq,
        exists_eq_left'] at ih ⊢
      by_cases hcolumn : p.col = q.col ∧ q.col = r.col
      · have hline : GridPoint.collinear p q r = true := by
          simp [GridPoint.collinear,
            GridPoint.cross_eq_zero_of_col_eq p q r hcolumn.1 hcolumn.2]
        rw [if_pos hline, if_neg (by omega)]
        split at ih <;> omega
      · split at ih <;> split <;> split <;> omega

theorem IsValid.kinks_le {d : Grid α} {b : GridBoundary} (h : b.IsValid d) :
    b.kinks ≤ d.kinkLimit := by
  obtain ⟨p, hp, hp0⟩ := h.starts
  obtain ⟨z, hz, hzx⟩ := h.ends
  obtain ⟨l, hl⟩ : ∃ l, b.points = p :: l := by
    cases hb : b.points with
    | nil => simp [hb] at hp
    | cons q l => exact ⟨l, by simpa [hb] using hp⟩
  have hle := turns_le_columns d.numX p l (hl ▸ h.ordered) fun y hy => by
    rw [← hl] at hy
    rw [Option.mem_unique hy hz, hzx]
  rw [kinks, hl, Grid.kinkLimit]
  omega

end GridBoundary

/-! ## The limit in the search, the survey and the sampler -/

namespace Search

/-- A search that looks for any number of kinks. -/
def uncapped (d : Grid α) (kinks : Nat) : Search := ⟨d.numX, d.numY, kinks, .start⟩

theorem new_of_le (d : Grid α) (kinks : Nat) (h : kinks ≤ d.kinkLimit) :
    new d kinks = uncapped d kinks := by
  rw [new, if_neg (not_lt.mpr h), uncapped]

theorem left_uncapped (d : Grid α) (kinks : Nat) (h : d.kinkLimit < kinks) :
    (uncapped d kinks).left = [] := by
  refine List.eq_nil_iff_forall_not_mem.mpr fun l hl => ?_
  have hmem := ((uncapped d kinks).mem_continuations (kinks + 2) [] l trivial fun _ =>
    Nat.le_add_left 2 kinks).mp hl
  rw [List.append_nil, beginning_iff] at hmem
  have hcanonical : GridBoundary.IsCanonical d kinks ⟨l⟩ := by
    rw [isCanonical_iff, beginning_iff]
    exact hmem
  exact absurd (kinks_le_of_isCanonical hcanonical) (not_le.mpr h)

theorem answer?_uncapped (d : Grid α) (kinks i : Nat) :
    (uncapped d kinks).answer? i = (new d kinks).answer? i := by
  rcases le_or_gt kinks d.kinkLimit with h | h
  · rw [new_of_le d kinks h]
  · rw [answer?_eq, answer?_eq, left_uncapped d kinks h, left, new, if_pos h]

theorem reached_uncapped (d : Grid α) (kinks : Nat) : Words.Reached d kinks (uncapped d kinks) := by
  rcases le_or_gt kinks d.kinkLimit with h | h
  · rw [← new_of_le d kinks h]
    exact Words.reached_new d kinks
  · refine ⟨rfl, rfl, ?_, by rintro _ ⟨⟩⟩
    rw [left_uncapped d kinks h]
    simp

end Search

namespace Machine

/-- Some call on the search answers with the boundary. -/
def Emits (M : Machine Option) (s : Search) (b : GridBoundary) : Prop :=
  ∃ n, ∃ after ∈ M.afterCalls s n, ∃ rest, M.next after = some (some b, rest)

variable {d : Grid α} {kinks : Nat} {s : Search}

theorem next_eq_of_reached (h : Words.Reached d kinks s) (hfits : Fits d.numX d.numY) :
    words.next s = some s.next :=
  (sound_words.next s).eq_some (h.next_isSome hfits)

theorem emits_iff (h : Words.Reached d kinks s) (hfits : Fits d.numX d.numY) (b : GridBoundary) :
    words.Emits s b ↔ ∃ n, s.answer? n = some b := by
  refine exists_congr fun n => ?_
  have hcalls : words.afterCalls s n = some (s.afterCalls n) :=
    (sound_words.afterCalls s n).eq_some (h.afterCalls_isSome hfits n)
  rw [hcalls, Search.answer?]
  simp [next_eq_of_reached (h.afterCalls n) hfits, Prod.ext_iff]

theorem emits_new_iff (hfits : Fits d.numX d.numY) (b : GridBoundary) :
    words.Emits (Search.new d kinks) b ↔ b.IsCanonical d kinks := by
  rw [emits_iff (Words.reached_new d kinks) hfits, ← Search.mem_toList_new]
  simp only [Search.answer?_eq, Search.toList_new, List.mem_iff_getElem?, List.getElem?_map]

theorem exists_emits_iff (hfits : Fits d.numX d.numY) (hy : 1 ≤ d.numY) :
    (∃ b, words.Emits (Search.new d kinks) b) ↔ kinks ≤ d.kinkLimit := by
  simp only [emits_new_iff hfits]
  exact ⟨fun ⟨_, hb⟩ => Search.kinks_le_of_isCanonical hb,
    fun h => ⟨_, GridBoundary.isCanonical_plain_zigzag d hy h⟩⟩

theorem next_of_le_kinkLimit (hfits : Fits d.numX d.numY) (hy : 1 ≤ d.numY)
    (hk : kinks ≤ d.kinkLimit) :
    ∃ b after, words.next (Search.new d kinks) = some (some b, after) := by
  rw [next_eq_of_reached (Words.reached_new d kinks) hfits]
  have hmem := (Search.mem_toList_new d kinks _).mpr (GridBoundary.isCanonical_plain_zigzag d hy hk)
  rw [Search.toList_new] at hmem
  cases hleft : (Search.new d kinks).left with
  | nil => simp [hleft] at hmem
  | cons l after =>
    rw [(Search.new d kinks).next_of_left_cons l after hleft]
    exact ⟨_, _, rfl⟩

end Machine

namespace Search

open Machine

/-- **Room.** On a grid of at least two rows that fits into the words, a search is set up and finds a
boundary exactly if the number of kinks is within the limit, and then the first call finds one. A
search without the limit finds the same boundaries, and no valid boundary is above it. The passes of
a survey are those up to its setting that have a boundary to label, and the numbers of kinks that the
sampler refuses are those for which no draw is accepted. -/
theorem finds_iff_le_kinkLimit (d : Grid α) (hy : 1 ≤ d.numY) (hfits : Fits d.numX d.numY)
    (kinks : Nat) :
    ((∃ s ∈ words.search d kinks, ∃ b, words.Emits s b) ↔ kinks ≤ d.kinkLimit) ∧
    (kinks ≤ d.kinkLimit → ∃ s ∈ words.search d kinks, ∃ b after,
      words.next s = some (some b, after)) ∧
    (∀ b, words.Emits (uncapped d kinks) b ↔ words.Emits (new d kinks) b) ∧
    (∀ b : GridBoundary, b.IsValid d → ∃ k ≤ d.kinkLimit, words.kinks b = some k) ∧
    (∀ config : SurveyConfig, kinks ≤ Pipeline.lastPass d config ↔
      kinks ≤ config.maxKinks ∧ ∃ b, words.Emits (new d kinks) b) ∧
    ((∃ s : SampleDraw, s.IsDraw d.numX d.numY kinks ∧
      words.kinks (s.boundary d.numX) = some kinks) ↔ kinks ≤ d.kinkLimit) := by
  have hiff : (∃ b, words.Emits (new d kinks) b) ↔ kinks ≤ d.kinkLimit := exists_emits_iff hfits hy
  refine ⟨⟨?_, fun hk => ?_⟩, fun hk => ?_, fun b => ?_, fun b hb => ?_, fun config => ?_, ?_⟩
  · rintro ⟨s, hs, hfound⟩
    obtain rfl := sound_words.search d kinks s hs
    exact hiff.mp hfound
  · exact ⟨new d kinks, hfits.search_eq hk, hiff.mpr hk⟩
  · exact ⟨new d kinks, hfits.search_eq hk, next_of_le_kinkLimit hfits hy hk⟩
  · rw [emits_iff (reached_uncapped d kinks) hfits, emits_iff (Words.reached_new d kinks) hfits]
    simp only [answer?_uncapped]
  · exact ⟨b.kinks, hb.kinks_le, hfits.kinks_eq hb.ordered hb.nodes⟩
  · rw [hiff, Pipeline.lastPass, le_min_iff]
  · rw [← hiff]
    simp only [emits_new_iff hfits, ← Search.mem_toList_new, ← hfits.exists_accepted_iff]
    constructor
    · rintro ⟨s, hs, haccepted⟩
      exact ⟨_, s, hs, haccepted, rfl⟩
    · rintro ⟨-, s, hs, haccepted, -⟩
      exact ⟨s, hs, haccepted⟩

/-- A grid of two rows and three columns. -/
def ladder : Grid ℚ := ⟨1, 2, 1, 1⟩

/-- Four kinks fit into the grid, and a fifth one does not. -/
theorem finds_iff_le_kinkLimit_ladder :
    1 ≤ ladder.numY ∧ Fits ladder.numX ladder.numY ∧
      (∃ s ∈ words.search ladder 4, ∃ b, words.Emits s b) ∧
      ¬ ∃ s ∈ words.search ladder 5, ∃ b, words.Emits s b := by
  have hfits : Fits ladder.numX ladder.numY := ⟨by decide, by decide, by decide⟩
  exact ⟨le_refl 1, hfits,
    (finds_iff_le_kinkLimit ladder (le_refl 1) hfits 4).1.mpr (by decide),
    mt (finds_iff_le_kinkLimit ladder (le_refl 1) hfits 5).1.mp (by decide)⟩

/-- With as many columns as there are words, the first call counts the last column up. -/
theorem finds_nothing_wide :
    Words.wide.validate = .ok () ∧ 1 ≤ Words.wide.numX ∧ 1 ≤ Words.wide.numY ∧
      1 ≤ Words.wide.kinkLimit ∧ words.next (new Words.wide 1) = none ∧
      ¬ ∃ s ∈ words.search Words.wide 1, ∃ b, words.Emits s b := by
  have hfirst : words.next (new Words.wide 1) = none := by decide
  refine ⟨by decide, by decide, by decide, by decide, hfirst, ?_⟩
  rintro ⟨s, hs, b, n, after, hafter, rest, hrest⟩
  obtain rfl : s = new Words.wide 1 := sound_words.search Words.wide 1 s hs
  cases n with
  | zero =>
    obtain rfl : new Words.wide 1 = after := Option.some.inj hafter
    rw [hfirst] at hrest
    cases hrest
  | succ n =>
    rw [Machine.afterCalls, hfirst] at hafter
    cases hafter

end Search

end BoundaryAtlas
