import Mathlib.Data.List.Sort
import BoundaryAtlas.Proofs.Grid.Draws
import BoundaryAtlas.Proofs.Grid.Listing
import BoundaryAtlas.Proofs.Random.Choices

/-!
# Sampling by rejection

What comes from a lawful source is a draw. The draws with the wanted number of kinks stand for the
boundaries of the search, each of them for another one, so the sampler answers with the first of its
draws that the search finds too.
-/

namespace BoundaryAtlas

namespace RandomSource

variable (R : RandomSource)

/-- The first `draws` draws from a stream. -/
def draws (numX numY kinks : Nat) : (draws : Nat) → R.Stream → List SampleDraw
  | 0, _ => []
  | n + 1, stream =>
    let (s, after) := R.sampleDraw numX numY kinks stream
    s :: draws numX numY kinks n after

variable {R}

theorem IsLawful.rows (h : R.IsLawful) (numY n : Nat) :
    Yields (R.rows numY n) fun l => l.length = n ∧ ∀ y ∈ l, y ≤ numY := by
  induction n with
  | zero => exact .pure ⟨rfl, by simp⟩
  | succ n ih =>
    refine (h.upTo numY).bind fun row hrow => ih.bind fun l hl => .pure ?_
    exact ⟨congrArg Nat.succ hl.1, List.forall_mem_cons.mpr ⟨hrow, hl.2⟩⟩

theorem isChain_mergeSort {l : List Nat} (h : l.Nodup) : l.mergeSort.IsChain (· < ·) := by
  have hle : l.mergeSort.SortedLE := List.sortedLE_mergeSort
  have hnodup : l.mergeSort.Nodup := (List.mergeSort_perm l _).nodup_iff.mpr h
  exact (List.sortedLT_iff_nodup_and_sortedLE.mpr ⟨hnodup, hle⟩).isChain

theorem IsLawful.sampleDraw (h : R.IsLawful) (numX numY kinks : Nat) :
    Yields (R.sampleDraw numX numY kinks) (·.IsDraw numX numY kinks) := by
  refine (h.indexSet (numX + kinks) kinks (Nat.le_add_left _ _)).bind fun taken htaken => ?_
  obtain ⟨hnodup, hlen, hlt⟩ := htaken
  refine (h.rows numY (kinks + 2)).bind fun ys hys => .pure ?_
  refine ⟨isChain_mergeSort hnodup, fun c hc => hlt c (List.mem_mergeSort.mp hc), ?_, hys.1, hys.2⟩
  rw [List.length_mergeSort, hlen]

theorem IsLawful.isDraw_of_mem_draws (h : R.IsLawful) {numX numY kinks : Nat} (n : Nat)
    (stream : R.Stream) : ∀ s ∈ R.draws numX numY kinks n stream, s.IsDraw numX numY kinks := by
  induction n generalizing stream with
  | zero => simp [draws]
  | succ n ih =>
    exact List.forall_mem_cons.mpr ⟨h.sampleDraw numX numY kinks stream, ih _⟩

end RandomSource

namespace Machine

variable {α : Type} {d : Grid α} {kinks : Nat} {R : RandomSource}

theorem Fits.kinks_of_isDraw (h : Fits d.numX d.numY) {s : SampleDraw}
    (hs : s.IsDraw d.numX d.numY kinks) :
    words.kinks (s.boundary d.numX) = some (s.boundary d.numX).kinks :=
  h.kinks_eq hs.ordered_boundary hs.nodes_boundary

theorem Fits.accepted_iff (h : Fits d.numX d.numY) {s : SampleDraw}
    (hs : s.IsDraw d.numX d.numY kinks) :
    words.kinks (s.boundary d.numX) = some kinks ↔ s.Accepted d.numX kinks := by
  rw [h.kinks_of_isDraw hs, Option.some.injEq, SampleDraw.Accepted]

theorem Fits.exists_accepted_iff (h : Fits d.numX d.numY) (b : GridBoundary) :
    (∃ s : SampleDraw, s.IsDraw d.numX d.numY kinks ∧
      words.kinks (s.boundary d.numX) = some kinks ∧ s.boundary d.numX = b) ↔
        b ∈ (Search.new d kinks).toList := by
  rw [Search.mem_toList_new, ← SampleDraw.exists_accepted_iff]
  exact exists_congr fun s => and_congr_right fun hs => and_congr_left' (h.accepted_iff hs)

theorem firstAccepted_eq (hR : R.IsLawful) (h : Fits d.numX d.numY) (n : Nat) (stream : R.Stream) :
    words.firstAccepted R d.numX d.numY kinks n stream =
      some (((R.draws d.numX d.numY kinks n stream).map (·.boundary d.numX)).find?
        (·.kinks = kinks)) := by
  induction n generalizing stream with
  | zero => rfl
  | succ n ih =>
    rcases hdraw : R.sampleDraw d.numX d.numY kinks stream with ⟨s, after⟩
    have hs : s.IsDraw d.numX d.numY kinks := by
      have := hR.sampleDraw d.numX d.numY kinks stream
      rwa [hdraw] at this
    rw [firstAccepted, RandomSource.draws, hdraw, List.map_cons, List.find?_cons]
    dsimp only
    rw [h.kinks_of_isDraw hs, Option.bind_eq_bind, Option.bind_some]
    by_cases haccepted : (s.boundary d.numX).kinks = kinks
    · simp [haccepted]
    · simp [haccepted, ih after]

variable [Scalar α]

theorem sample_eq (hR : R.IsLawful) (h : Fits d.numX d.numY) (hd : d.validate = .ok ())
    (hk : kinks ≤ d.kinkLimit) (key : DrawKey) :
    (words.sample R d kinks key).run = some
      ((((R.draws d.numX d.numY kinks GridBoundary.maxDraws (R.ofSeed key.streamSeed)).map
        (·.boundary d.numX)).find? (·.kinks = kinks)).elim
          (.error (.param (.noAcceptedDraw kinks GridBoundary.maxDraws))) .ok) := by
  unfold sample
  rw [hd, if_neg (Nat.not_lt.mpr hk), firstAccepted_eq hR h]
  cases ((R.draws d.numX d.numY kinks GridBoundary.maxDraws (R.ofSeed key.streamSeed)).map
        (·.boundary d.numX)).find? (·.kinks = kinks) <;> rfl

theorem sample_eq_find?_mem (hR : R.IsLawful) (h : Fits d.numX d.numY) (hd : d.validate = .ok ())
    (hk : kinks ≤ d.kinkLimit) (key : DrawKey) :
    (words.sample R d kinks key).run = some
      ((((R.draws d.numX d.numY kinks GridBoundary.maxDraws (R.ofSeed key.streamSeed)).map
        (·.boundary d.numX)).find? (· ∈ (Search.new d kinks).toList)).elim
          (.error (.param (.noAcceptedDraw kinks GridBoundary.maxDraws))) .ok) := by
  rw [sample_eq hR h hd hk key, ← List.head?_filter, ← List.head?_filter]
  congr 3
  refine List.filter_congr fun b hb => decide_eq_decide.mpr ?_
  obtain ⟨s, hs, rfl⟩ := List.mem_map.mp hb
  have hdraw := hR.isDraw_of_mem_draws _ _ s hs
  constructor
  · exact fun hkinks => (h.exists_accepted_iff _).mp ⟨s, hdraw, (h.accepted_iff hdraw).mpr hkinks, rfl⟩
  · exact fun hmem => ((Search.mem_toList_new d kinks _).mp hmem).kinks_eq

end Machine

namespace GridBoundary

open Machine SampleDraw BoundaryAtlas.Random

variable {α : Type} [Scalar α]

/-- **Sampling.** On a grid that fits into the words the search lists its boundaries, and no number
of kinks of a draw overflows. Different draws stand for different lists of points, and the accepted
draws stand for the boundaries of the list, each of which has one of them. Whatever comes from the
source is a draw, and the sample of a key is the first one of the list among so many draws. -/
theorem sample_draws_enumerated (R : RandomSource) (hR : R.IsLawful) (d : Grid α)
    (hd : d.validate = .ok ()) (hfits : Fits d.numX d.numY) (kinks : Nat)
    (hk : kinks ≤ d.kinkLimit) :
    ∃ all, words.search d kinks >>= words.toList = some all ∧
      (∀ s t : SampleDraw, s.IsDraw d.numX d.numY kinks → t.IsDraw d.numX d.numY kinks →
        s.boundary d.numX = t.boundary d.numX → s = t) ∧
      (∀ b, (∃ s : SampleDraw, s.IsDraw d.numX d.numY kinks ∧
        words.kinks (s.boundary d.numX) = some kinks ∧ s.boundary d.numX = b) ↔ b ∈ all) ∧
      (∀ b ∈ all, ∃! s : SampleDraw, s.IsDraw d.numX d.numY kinks ∧
        words.kinks (s.boundary d.numX) = some kinks ∧ s.boundary d.numX = b) ∧
      ∀ key,
        (∀ s ∈ R.draws d.numX d.numY kinks maxDraws (R.ofSeed key.streamSeed),
          s.IsDraw d.numX d.numY kinks) ∧
        (words.sample R d kinks key).run = some
          ((((R.draws d.numX d.numY kinks maxDraws (R.ofSeed key.streamSeed)).map
            (·.boundary d.numX)).find? (· ∈ all)).elim
              (.error (.param (.noAcceptedDraw kinks maxDraws))) .ok) ∧
        ∀ b, (words.sample R d kinks key).run = some (.ok b) → b ∈ all := by
  have hlist : words.search d kinks >>= words.toList = some (Search.new d kinks).toList := by
    rw [hfits.search_eq hk]
    exact hfits.toList_eq
  refine ⟨_, hlist, fun s t hs ht => hs.eq_of_boundary_eq ht, hfits.exists_accepted_iff,
    fun b hb => ?_, fun key => ⟨hR.isDraw_of_mem_draws _ _, ?_, fun b hb => ?_⟩⟩
  · obtain ⟨s, hs⟩ := (hfits.exists_accepted_iff b).mpr hb
    exact ⟨s, hs, fun t ht => ht.1.eq_of_boundary_eq hs.1 (ht.2.2.trans hs.2.2.symm)⟩
  · exact sample_eq_find?_mem hR hfits hd hk key
  · rw [sample_eq_find?_mem hR hfits hd hk key] at hb
    cases hfound : ((R.draws d.numX d.numY kinks maxDraws (R.ofSeed key.streamSeed)).map
        (·.boundary d.numX)).find? (· ∈ (Search.new d kinks).toList) with
    | none => simp [hfound] at hb
    | some c =>
      obtain rfl : c = b := by simpa [hfound] using hb
      simpa using List.find?_some hfound

/-- A grid of two columns and two rows. -/
def tile : Grid Float := ⟨1.0, 1, 1.0, 1⟩

theorem sample_draws_enumerated_tile :
    chaCha.IsLawful ∧ tile.validate = .ok () ∧ Fits tile.numX tile.numY ∧ 1 ≤ tile.kinkLimit ∧
      ∃! s : SampleDraw, s.IsDraw tile.numX tile.numY 1 ∧
        words.kinks (s.boundary tile.numX) = some 1 ∧
        s.boundary tile.numX = ⟨[⟨0, 0⟩, ⟨0, 1⟩, ⟨1, 0⟩]⟩ := by
  have hd : tile.validate = .ok () := by decide
  have hfits : Fits tile.numX tile.numY := ⟨by decide, by decide, by decide⟩
  have hk : 1 ≤ tile.kinkLimit := by decide
  obtain ⟨all, -, -, hiff, hunique, -⟩ :=
    sample_draws_enumerated chaCha chaCha_isLawful tile hd hfits 1 hk
  refine ⟨chaCha_isLawful, hd, hfits, hk, hunique _ ((hiff _).mp ⟨⟨[0], [0, 1, 0]⟩, ?_⟩)⟩
  exact ⟨⟨by decide, by decide, by decide, by decide, by decide⟩, by decide, by decide⟩

/-- With as many columns as there are words the search overflows before it finds the boundary of an
accepted draw. -/
theorem search_overflows_wide :
    Words.wide.validate = .ok () ∧ 1 ≤ Words.wide.kinkLimit ∧
      (∃ s : SampleDraw, s.IsDraw Words.wide.numX Words.wide.numY 1 ∧
        words.kinks (s.boundary Words.wide.numX) = some 1) ∧
      words.search Words.wide 1 >>= words.toList = none := by
  refine ⟨by decide, by decide, ⟨⟨[0], [0, 1, 0]⟩, ?_, by decide⟩, by decide⟩
  exact ⟨by decide, by decide, by decide, by decide, by decide⟩

end GridBoundary

end BoundaryAtlas
