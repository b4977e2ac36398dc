import BoundaryAtlas.Proofs.Boundary.Deletion
import BoundaryAtlas.Proofs.Pipeline.Machines
import BoundaryAtlas.Proofs.Pipeline.OnGrid
import BoundaryAtlas.Proofs.Trace.Tracking

/-!
# Answers that meet their constraints

With exact numbers and a box over the width of the grid, a boundary stays in order when it is
turned, and its ends are the right way round. So labeling stops only at an answer of the solver that
is off its constraints. The solver for chains gives no such answer if its slack is small.
-/

namespace BoundaryAtlas

variable {α σ : Type} [ExactScalar α]

/-! ## The solver for chains -/

theorem Synthesizer.isSoundOn_chain (config : TraceConfig α) (solver : SolverConfig α)
    (hconfig : config.validate = .ok ()) (hslack : 0 ≤ solver.slack)
    (hsmall : config.numPoints * solver.slack ≤ solutionSlack) (b : Boundary α) (horizon : α) :
    (chain config solver).IsSoundOn b horizon := by
  intro constraints hconstraints
  change TraceConstraints.ofBoundary b (config.times horizon) config = .ok constraints at hconstraints
  obtain ⟨-, hpoints, hrate, -⟩ := config.validate_eq_ok_iff.mp hconfig
  obtain ⟨targets, htargets, rfl⟩ := TraceConstraints.ofBoundary_eq_ok b _ config _ hconstraints
  have hcount : targets.length = config.numPoints := by
    rw [← htargets.length_eq, config.length_times]
  cases hsol : (chain config solver).solve (.around config targets) with
  | feasible sol =>
    change Chain.solve (.around config targets) solver = .feasible sol at hsol
    obtain ⟨hlength, hsteps, hstates⟩ :=
      inTubes_of_solve config targets solver hslack hrate sol hsol
    exact isMetBy_of_inTubes config targets solver.slack hslack sol (by omega) hlength
      (Chain.solve_eq_feasible _ _ sol hsol).1 hsteps hstates _ (hcount ▸ hsmall)
  | infeasible sample => rfl
  | timedOut elapsed => rfl

/-! ## Boundaries of the grid -/

theorem AffineMap.keepsTimeAxis_halfTurn (box : Box α) : (halfTurn box).keepsTimeAxis = true := by
  simp [keepsTimeAxis, halfTurn]

theorem Boundary.isOrdered_invert (b : Boundary α) (box : Box α) (h : Point.Ordered b.points) :
    (b.invert box).isOrdered = true := by
  simp only [isOrdered, List.all_eq_true, decide_eq_true_eq]
  exact (forall_neighbours_iff (fun p q : Point α => p.x ≤ q.x) _).mpr (b.ordered_invert box h)

namespace Pipeline

theorem exists_tracked (p : Pipeline α σ) (d : Grid α) (hbox : p.box.x = ⟨0, d.width⟩)
    (hgrid : d.validate = .ok ()) {M : Machine Option} (hM : M.Strict) {n : Nat}
    {b : GridBoundary} (hb : b.IsCanonical d n) :
    ∃ boundary, b.toBoundary d = .ok boundary ∧ (M.tracked p boundary).isSome = true ∧
      (p.target boundary).domain = ⟨0, d.width⟩ := by
  obtain ⟨hx, hy, -⟩ := d.pos_of_validate hgrid
  obtain ⟨c, hc, hdomain, -⟩ := hb.isValid.toBoundary_inside hx hy
  obtain ⟨c', hc', -, hord⟩ := hb.isValid.toBoundary_eq hx
  obtain rfl : c = c' := by
    rw [hc] at hc'
    exact Except.ok.inj hc'
  refine ⟨c, hc, hM.tracked_isSome p c fun _ => ?_, ?_⟩
  · exact ⟨AffineMap.keepsTimeAxis_halfTurn p.box, c.isOrdered_invert p.box hord⟩
  · rw [← hbox] at hdomain ⊢
    exact p.domain_target c hdomain

/-- The solver's answer for a grid boundary meets the constraints, if it is feasible. -/
def IsSoundOn (p : Pipeline α σ) (d : Grid α) (b : GridBoundary) : Prop :=
  ∀ boundary, b.toBoundary d = .ok boundary → p.synth.IsSoundOn (p.target boundary) p.horizon

theorem labelGrid_isSome_iff_isSoundOn (p : Pipeline α σ) (d : Grid α)
    (hbox : p.box.x = ⟨0, d.width⟩) (hconfig : p.synth.config.validate = .ok ())
    (hgrid : d.validate = .ok ()) {M : Machine Option} (hM : M.Strict) {n : Nat}
    {b : GridBoundary} (hb : b.IsCanonical d n) (hkinks : (M.kinks b).isSome = true)
    (s : Session α σ) : (M.labelGrid p d b s).isSome = true ↔ p.IsSoundOn d b := by
  obtain ⟨c, hc, htracked, hdomain⟩ := p.exists_tracked d hbox hgrid hM hb
  have hwidth := d.width_pos hgrid
  have hends : (p.target c).first.x ≤ (p.target c).last.x := by
    obtain ⟨hfirst, hlast⟩ := Interval.mk.inj hdomain
    rw [hfirst, hlast]
    exact hwidth.le
  have hok : Synthesizer.horizonOk p.horizon = true := by
    rw [horizon, hbox]
    simpa [Synthesizer.horizonOk] using hwidth
  rw [hM.labelGrid_isSome_iff p d b s c hc htracked hends hconfig hok hkinks]
  constructor
  · intro h c' hc'
    obtain rfl := Except.ok.inj (hc.symm.trans hc')
    exact h
  · exact fun h => h c hc

theorem isSoundOn_chain (p : Pipeline α σ) (d : Grid α) (config : TraceConfig α)
    (solver : SolverConfig α) (hsynth : p.synth = .chain config solver)
    (hconfig : config.validate = .ok ()) (hslack : 0 ≤ solver.slack)
    (hsmall : config.numPoints * solver.slack ≤ solutionSlack) (b : GridBoundary) :
    p.IsSoundOn d b := by
  intro c _
  rw [hsynth]
  exact Synthesizer.isSoundOn_chain config solver hconfig hslack hsmall _ _

end Pipeline

end BoundaryAtlas
