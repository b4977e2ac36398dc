import BoundaryAtlas.Proofs.Atlas.Conservation
import BoundaryAtlas.Proofs.Grid.HalfTurn
import BoundaryAtlas.Proofs.Pipeline.Reduction

/-!
# Surveys with turned boundaries

In the box of its grid, a pipeline that turns its boundaries gives each of them the label that a
pipeline without turns gives to the boundary after half a turn of the grid.
-/

namespace BoundaryAtlas

variable {α σ : Type}

theorem Search.map_halfTurn_perm (d : Grid α) (n : Nat) :
    ((new d n).toList.map (GridBoundary.halfTurn d)).Perm (new d n).toList := by
  have hback : ∀ b ∈ (new d n).toList, (b.halfTurn d).halfTurn d = b := fun b hb =>
    GridBoundary.halfTurn_halfTurn ((mem_toList_new d n b).mp hb).nodes
  have hnodup : ((new d n).toList.map (GridBoundary.halfTurn d)).Nodup := by
    refine (nodup_toList_new d n).map_on fun b hb c hc heq => ?_
    rw [← hback b hb, heq, hback c hc]
  refine (List.perm_ext_iff_of_nodup hnodup (nodup_toList_new d n)).mpr fun b => ?_
  rw [List.mem_map, mem_toList_new]
  constructor
  · rintro ⟨c, hc, rfl⟩
    exact ((mem_toList_new d n c).mp hc).halfTurn
  · intro hb
    exact ⟨b.halfTurn d, (mem_toList_new d n _).mpr hb.halfTurn,
      GridBoundary.halfTurn_halfTurn hb.nodes⟩

/-! ## Outcomes with the same answer -/

theorem Outcome.label?_eq (o : Outcome α) : o.label? = o.answer.toOption := by
  cases o <;> rfl

theorem Tally.note_congr (t : Tally) {o o' : Outcome α} (h : o.answer = o'.answer) :
    t.note o = t.note o' := by
  have hof : ofOutcome o = ofOutcome o' := by
    cases o with
    | labeled r =>
      cases o' with
      | labeled r' =>
        have hlabel : r.label = r'.label := Except.ok.inj h
        simp only [ofOutcome, hlabel]
      | failed b' fault' => cases h
    | failed b fault =>
      cases o' with
      | labeled r' => cases h
      | failed b' fault' =>
        obtain rfl : fault = fault' := Except.error.inj h
        cases fault <;> rfl
  rw [note, note, hof]

theorem Atlas.passTally_eq_of_perm (d : Grid α) (f g : GridBoundary → Outcome α)
    (turn : GridBoundary → GridBoundary) (k : Nat)
    (hperm : ((Search.new d k).toList.map turn).Perm (Search.new d k).toList)
    (h : ∀ b ∈ (Search.new d k).toList, (f b).answer = (g (turn b)).answer) :
    passTally d f k = passTally d g k :=
  calc ((Search.new d k).toList.map f).foldl Tally.note .zero
      = (((Search.new d k).toList.map turn).map g).foldl Tally.note .zero := by
        rw [List.map_map, List.foldl_map, List.foldl_map]
        exact List.foldl_ext _ _ _ fun t b hb => t.note_congr (h b hb)
    _ = ((Search.new d k).toList.map g).foldl Tally.note .zero :=
        (hperm.map g).foldl_eq' (fun o _ o' _ t => Tally.note_comm t o o') _

/-! ## Pipelines that turn their boundaries -/

namespace Pipeline

variable [ExactScalar α]

/-- The pipeline with or without turns. -/
def turning (p : Pipeline α σ) (inverts : Bool) : Pipeline α σ := { p with inverts := inverts }

theorem traceOf_turning (p : Pipeline α σ) (d : Grid α) (hbox : p.box = d.box)
    (hx : 0 < d.xSpacing) {n : Nat} {b : GridBoundary} (hb : b.IsCanonical d n) :
    (p.turning true).traceOf d b = (p.turning false).traceOf d (b.halfTurn d) := by
  rw [traceOf, traceOf, hb.toBoundary_halfTurn hx, ← hbox]
  cases b.toBoundary d <;> rfl

theorem answer_turning (p : Pipeline α σ) (d : Grid α) (hbox : p.box = d.box)
    (hx : 0 < d.xSpacing) {n : Nat} {b : GridBoundary} (hb : b.IsCanonical d n)
    (s : Session α σ) :
    ((p.turning true).labelGrid d b s).1.answer =
      ((p.turning false).labelGrid d (b.halfTurn d) s).1.answer := by
  rw [answer_labelGrid, answer_labelGrid, verdict_eq, verdict_eq, p.traceOf_turning d hbox hx hb]
  rfl

/-- **Half turns.** Half a turn of the grid permutes the boundaries with each number of kinks. In
the box of the grid, a survey with turns knows of each boundary what a survey without turns knows of
the boundary after half a turn, and both have the same tallies. -/
theorem survey_half_turn (p : Pipeline α σ) (hpure : p.labeler.IsPure) (d : Grid α)
    (hbox : p.box = ⟨⟨0, d.width⟩, ⟨0, d.height⟩⟩) (config : SurveyConfig) (s : Session α σ) :
    (∀ k, ((Search.new d k).toList.map (GridBoundary.halfTurn d)).Perm (Search.new d k).toList) ∧
    (p.preflight d = .ok () → ∃ turned plain : Atlas α,
      (p.turning true).Gives d config turned ∧ (p.turning false).Gives d config plain ∧
      (∀ b, b.outlier? d = none → turned.get? b = plain.get? (b.halfTurn d)) ∧
      ∀ k, turned.tally? k = plain.tally? k) := by
  refine ⟨Search.map_halfTurn_perm d, fun hrun => ?_⟩
  have hbox : p.box = d.box := by
    rw [hbox, Grid.box, ExactScalar.ofNat_eq, Nat.cast_zero]
  obtain ⟨_, hgrid, -⟩ := exists_of_bind_eq_ok hrun
  have hx := (d.pos_of_validate hgrid).1
  refine ⟨_, _, (p.turning true).gives_of_isPure hpure d config hrun s,
    (p.turning false).gives_of_isPure hpure d config hrun s, fun b hb => ?_, fun k => ?_⟩
  · have hnodes := (b.outlier?_eq_none_iff d).mp hb
    refine Option.ext fun label => ?_
    rw [Atlas.get?_ofOutcomes d config _ fun b => (p.turning true).boundary_labelGrid d b s,
      Atlas.get?_ofOutcomes d config _ fun b => (p.turning false).boundary_labelGrid d b s]
    simp only [Search.mem_toList_new, GridBoundary.isCanonical_halfTurn_iff hnodes]
    refine and_congr_left ?_
    rintro ⟨k, -, hcanonical⟩
    rw [Outcome.label?_eq, Outcome.label?_eq, p.answer_turning d hbox hx hcanonical s]
  · have hpass := Atlas.passTally_eq_of_perm d (fun b => ((p.turning true).labelGrid d b s).1)
      (fun b => ((p.turning false).labelGrid d b s).1) _ k (Search.map_halfTurn_perm d k)
      fun b hb => p.answer_turning d hbox hx ((Search.mem_toList_new d k b).mp hb) s
    rw [Atlas.tally?_ofOutcomes, Atlas.tally?_ofOutcomes, hpass]

theorem survey_half_turn_lowerHalf :
    (lowerHalf .halves).box = ⟨⟨0, Grid.halves.width⟩, ⟨0, Grid.halves.height⟩⟩ ∧
    (lowerHalf .halves).preflight .halves = .ok () ∧
    ∃ turned plain : Atlas ℚ,
      ((lowerHalf .halves).turning true).Gives .halves ⟨2, none⟩ turned ∧
      ((lowerHalf .halves).turning false).Gives .halves ⟨2, none⟩ plain ∧
      turned.get? ⟨[⟨0, 0⟩, ⟨1, 0⟩, ⟨2, 1⟩]⟩ = plain.get? ⟨[⟨0, 1⟩, ⟨1, 2⟩, ⟨2, 2⟩]⟩ ∧
      turned.tally? 1 = plain.tally? 1 := by
  have hpure := lowerHalf_isPure .halves
  have hbox : (lowerHalf .halves).box =
      ⟨⟨0, Grid.halves.width⟩, ⟨0, Grid.halves.height⟩⟩ := by decide +kernel
  have hrun : (lowerHalf .halves).preflight .halves = .ok () := by decide +kernel
  obtain ⟨-, hall⟩ :=
    survey_half_turn (lowerHalf .halves) hpure .halves hbox ⟨2, none⟩ (.new () false)
  obtain ⟨turned, plain, hturned, hplain, hget, htally⟩ := hall hrun
  exact ⟨hbox, hrun, turned, plain, hturned, hplain, hget _ rfl, htally 1⟩

end Pipeline

end BoundaryAtlas
