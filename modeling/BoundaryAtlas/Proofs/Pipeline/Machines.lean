import BoundaryAtlas.Proofs.Grid.Listing
import BoundaryAtlas.Proofs.Pipeline.Faults

/-!
# Labeling on a machine

Where a sound machine labels a boundary, the label is the one without bounds. It stops at a
condition that fails: an inversion that does not keep the order, an interval whose ends are the
wrong way round, an answer of the solver that is off its constraints.
-/

namespace BoundaryAtlas

namespace Machine

variable {α σ β γ ε : Type}

/-! ## Steps that may fault -/

theorem Agrees.andThen {x : ExceptT ε Option β} {y : ExceptT ε Id β} {f : β → ExceptT ε Option γ}
    {g : β → ExceptT ε Id γ} (h : Agrees x.run y.run.run)
    (hf : ∀ b, Agrees (f b).run (g b).run.run) : Agrees (x >>= f).run (y >>= g).run.run := by
  refine Agrees.bind (x := x.run) (y := y.run) (f := ExceptT.bindCont f) (g := ExceptT.bindCont g)
    h ?_
  cases y.run.run with
  | error fault => exact agrees_some _
  | ok b => exact hf b

theorem agrees_mapM {f : β → ExceptT ε Option γ} {g : β → ExceptT ε Id γ}
    (hf : ∀ b, Agrees (f b).run (g b).run.run) (l : List β) :
    Agrees (l.mapM f).run (l.mapM g).run.run := by
  induction l with
  | nil => exact agrees_some _
  | cons b l ih =>
    rw [List.mapM_cons, List.mapM_cons]
    exact (hf b).andThen fun c => ih.andThen fun cs => agrees_some _

theorem agrees_lift {x : Option β} {y : Id β} (h : Agrees x y.run) :
    Agrees (liftM x : ExceptT ε Option β).run (liftM y : ExceptT ε Id β).run.run := by
  cases x with
  | none => exact agrees_none _
  | some b =>
    obtain rfl := h b rfl
    exact agrees_some _

variable (M : Machine Option)

theorem agrees_check (holds : Bool) : Agrees (M.check holds) (ideal.check holds).run :=
  fun _ _ => rfl

variable [Scalar α]

/-! ## From a boundary to a trace -/

theorem agrees_clamp (t lo hi : α) : Agrees (M.clamp t lo hi) (ideal.clamp t lo hi).run :=
  (M.agrees_check _).bind (agrees_some _)

theorem agrees_valueAt (b : Boundary α) (t : α) :
    Agrees (M.valueAt b t).run (ideal.valueAt b t).run.run := by
  unfold valueAt
  split
  · exact (agrees_lift (M.agrees_clamp t _ _)).andThen fun _ => agrees_some _
  · exact agrees_some _

theorem agrees_extendedValueAt (b : Boundary α) (t : α) :
    Agrees (M.extendedValueAt b t).run (ideal.extendedValueAt b t).run.run := by
  unfold extendedValueAt
  split
  · exact agrees_some _
  · split
    · exact M.agrees_valueAt b t
    · split <;> exact agrees_some _

theorem agrees_target (b : Boundary α) (c : TraceConfig α) (t : α) :
    Agrees (M.target b c t).run (ideal.target b c t).run.run := by
  unfold target
  cases c.beyondEnds with
  | reject => exact M.agrees_valueAt b t
  | extend => exact M.agrees_extendedValueAt b t

theorem agrees_constraints (b : Boundary α) (times : List α) (c : TraceConfig α) :
    Agrees (M.constraints b times c).run (ideal.constraints b times c).run.run :=
  (agrees_mapM (M.agrees_target b c) times).andThen fun _ => agrees_some _

theorem agrees_synthesize (s : Synthesizer α) (b : Boundary α) (horizon : α) :
    Agrees (M.synthesize s b horizon).run (ideal.synthesize s b horizon).run.run := by
  unfold synthesize
  refine Agrees.andThen (agrees_some _) fun _ => ?_
  dsimp only
  split
  · exact agrees_some _
  · refine (M.agrees_constraints b _ _).andThen fun constraints => ?_
    exact (agrees_lift (M.agrees_check _)).andThen fun _ => agrees_some _

theorem agrees_tracked (p : Pipeline α σ) (b : Boundary α) :
    Agrees (M.tracked p b) (ideal.tracked p b).run := by
  unfold tracked
  split
  · unfold invert
    exact (M.agrees_check _).bind ((M.agrees_check _).bind (agrees_some _))
  · exact agrees_some b

/-! ## From a boundary to a label -/

theorem agrees_label (p : Pipeline α σ) (b : Boundary α) (s : Session α σ) :
    Agrees (M.label p b s) (ideal.label p b s).run := by
  unfold label
  refine (M.agrees_tracked p b).bind ?_
  refine (M.agrees_synthesize p.synth _ _).bind ?_
  cases (ideal.synthesize p.synth (ideal.tracked p b).run p.horizon).run.run with
  | error fault => exact agrees_some _
  | ok trace => exact agrees_some _

theorem Sound.labelGrid {M : Machine Option} (hM : M.Sound) (p : Pipeline α σ) (d : Grid α)
    (b : GridBoundary) (s : Session α σ) : Agrees (M.labelGrid p d b s) (p.labelGrid d b s) := by
  unfold Pipeline.labelGrid Machine.labelGrid
  cases b.toBoundary d with
  | error fault => exact agrees_some _
  | ok boundary =>
    dsimp only
    refine (M.agrees_label p boundary _).bind ?_
    rcases (ideal.label p boundary ⟨s.labeler, s.canvas, s.attempts + 1⟩).run with
      ⟨_ | ⟨_, verdict⟩, s'⟩
    · exact agrees_some _
    · exact (hM.turns b.points).bind (agrees_some _)

/-! ## Where a machine stops -/

/-- The machine stops at a condition exactly if it fails. -/
def Strict (M : Machine Option) : Prop := ∀ holds, (M.check holds).isSome = holds

theorem strict_checked : checked.Strict := by rintro (_ | _) <;> rfl

theorem strict_words : words.Strict := by rintro (_ | _) <;> rfl

omit [Scalar α] in
theorem isSome_andThen {x : ExceptT ε Option β} {f : β → ExceptT ε Option γ}
    (hx : x.run.isSome = true) (hf : ∀ b, (f b).run.isSome = true) :
    (x >>= f).run.isSome = true := by
  refine isSome_bind (f := ExceptT.bindCont f) hx fun result _ => ?_
  cases result with
  | error fault => rfl
  | ok b => exact hf b

theorem isSome_mapM {f : β → ExceptT ε Option γ} (hf : ∀ b, (f b).run.isSome = true) (l : List β) :
    (l.mapM f).run.isSome = true := by
  induction l with
  | nil => rfl
  | cons b l ih =>
    rw [List.mapM_cons]
    exact isSome_andThen (hf b) fun _ => isSome_andThen ih fun _ => rfl

theorem isSome_lift {x : Option β} (h : x.isSome = true) :
    (liftM x : ExceptT ε Option β).run.isSome = true := by
  obtain ⟨b, rfl⟩ := Option.isSome_iff_exists.mp h
  rfl

variable {M}

theorem Strict.valueAt_isSome (hM : M.Strict) (b : Boundary α) (h : b.first.x ≤ b.last.x) (t : α) :
    (M.valueAt b t).run.isSome = true := by
  have hcheck : (M.check (decide (b.first.x ≤ b.last.x))).isSome = true :=
    (hM _).trans (decide_eq_true h)
  unfold valueAt
  split
  · exact isSome_andThen (isSome_lift (isSome_bind hcheck fun _ _ => rfl)) fun _ => rfl
  · rfl

theorem Strict.target_isSome (hM : M.Strict) (b : Boundary α) (h : b.first.x ≤ b.last.x)
    (c : TraceConfig α) (t : α) : (M.target b c t).run.isSome = true := by
  unfold target
  cases c.beyondEnds with
  | reject => exact hM.valueAt_isSome b h t
  | extend =>
    dsimp only
    unfold extendedValueAt
    split
    · rfl
    · split
      · exact hM.valueAt_isSome b h t
      · split <;> rfl

theorem Strict.constraints_eq (hM : M.Strict) (b : Boundary α) (h : b.first.x ≤ b.last.x)
    (times : List α) (c : TraceConfig α) :
    (M.constraints b times c).run = some (TraceConstraints.ofBoundary b times c) :=
  (M.agrees_constraints b times c).eq_some
    (isSome_andThen (isSome_mapM (hM.target_isSome b h c) times) fun _ => rfl)

end Machine

/-- What the solver answers for this boundary meets the constraints, if it is feasible. -/
def Synthesizer.IsSoundOn {α : Type} [Scalar α] (s : Synthesizer α) (b : Boundary α) (horizon : α) :
    Prop :=
  ∀ constraints,
    TraceConstraints.ofBoundary b (s.config.times horizon) s.config = .ok constraints →
    (s.solve constraints).isSound constraints = true

namespace Machine

variable {α σ : Type} [Scalar α] {M : Machine Option}

/-- With valid settings, only an answer of the solver that is off its constraints stops a trace. -/
theorem Strict.synthesize_isSome_iff (hM : M.Strict) (s : Synthesizer α) (b : Boundary α)
    (h : b.first.x ≤ b.last.x) (horizon : α) (hconfig : s.config.validate = .ok ())
    (hok : Synthesizer.horizonOk horizon = true) :
    (M.synthesize s b horizon).run.isSome = true ↔ s.IsSoundOn b horizon := by
  have hrun : (M.synthesize s b horizon).run =
      match TraceConstraints.ofBoundary b (s.config.times horizon) s.config with
      | .error fault => some (.error fault)
      | .ok constraints => M.check ((s.solve constraints).isSound constraints) >>= fun _ =>
          some ((s.solve constraints).toTrace (s.config.times horizon)) := by
    have hthrow : (!(Scalar.isFinite horizon && decide (Scalar.ofNat 0 < horizon))) = false := by
      rw [Bool.not_eq_false']
      exact hok
    unfold synthesize
    rw [hconfig, hthrow]
    show (M.constraints b (s.config.times horizon) s.config).run >>= ExceptT.bindCont _ = _
    rw [hM.constraints_eq b h]
    cases TraceConstraints.ofBoundary b (s.config.times horizon) s.config with
    | error fault => rfl
    | ok constraints =>
      show (liftM (M.check ((s.solve constraints).isSound constraints)) :
        ExceptT (Fault α) Option Unit).run >>= ExceptT.bindCont _ = _
      dsimp only
      cases M.check ((s.solve constraints).isSound constraints) with
      | none => rfl
      | some _ => cases (s.solve constraints).toTrace (s.config.times horizon) <;> rfl
  unfold Synthesizer.IsSoundOn
  rw [hrun]
  cases TraceConstraints.ofBoundary b (s.config.times horizon) s.config with
  | error fault => simp
  | ok constraints =>
    simp only [Except.ok.injEq, forall_eq']
    refine Iff.trans ?_ (Bool.eq_iff_iff.mp (hM _))
    cases M.check ((s.solve constraints).isSound constraints) <;> rfl

theorem tracked_eq (p : Pipeline α σ) (b : Boundary α) (h : (M.tracked p b).isSome = true) :
    M.tracked p b = some (p.target b) := by
  rw [← p.tracked_ideal b]
  exact (M.agrees_tracked p b).eq_some h

theorem Strict.tracked_isSome (hM : M.Strict) (p : Pipeline α σ) (b : Boundary α)
    (h : p.inverts = true →
      (AffineMap.halfTurn p.box).keepsTimeAxis = true ∧ (b.invert p.box).isOrdered = true) :
    (M.tracked p b).isSome = true := by
  unfold tracked
  split
  · obtain ⟨haxis, hordered⟩ := h ‹_›
    exact isSome_bind ((hM _).trans haxis) fun _ _ =>
      isSome_bind ((hM _).trans hordered) fun _ _ => rfl
  · rfl

theorem labelGrid_isSome (p : Pipeline α σ) (d : Grid α) (b : GridBoundary) (s : Session α σ) :
    (M.labelGrid p d b s).isSome =
      match b.toBoundary d with
      | .error _ => true
      | .ok boundary =>
        match M.tracked p boundary >>= fun target =>
            (M.synthesize p.synth target p.horizon).run with
        | none => false
        | some (.error _) => true
        | some (.ok _) => (M.kinks b).isSome := by
  unfold labelGrid label
  cases b.toBoundary d with
  | error fault => rfl
  | ok boundary =>
    dsimp only
    cases M.tracked p boundary with
    | none => rfl
    | some target =>
      dsimp only [Option.bind_eq_bind, Option.bind_some]
      rcases (M.synthesize p.synth target p.horizon).run with _ | _ | _
      · rfl
      · rfl
      · cases M.kinks b <;> simp

theorem Strict.labelGrid_isSome_iff (hM : M.Strict) (p : Pipeline α σ) (d : Grid α)
    (b : GridBoundary) (s : Session α σ) (boundary : Boundary α)
    (hplace : b.toBoundary d = .ok boundary) (htracked : (M.tracked p boundary).isSome = true)
    (hends : (p.target boundary).first.x ≤ (p.target boundary).last.x)
    (hconfig : p.synth.config.validate = .ok ())
    (hok : Synthesizer.horizonOk p.horizon = true) (hkinks : (M.kinks b).isSome = true) :
    (M.labelGrid p d b s).isSome = true ↔ p.synth.IsSoundOn (p.target boundary) p.horizon := by
  rw [labelGrid_isSome, hplace, ← hM.synthesize_isSome_iff p.synth _ hends p.horizon hconfig hok]
  dsimp only
  rw [tracked_eq p boundary htracked]
  dsimp only [Option.bind_eq_bind, Option.bind_some]
  rcases (M.synthesize p.synth (p.target boundary) p.horizon).run with _ | _ | _ <;> simp [hkinks]

end Machine

end BoundaryAtlas
