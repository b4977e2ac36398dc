import BoundaryAtlas.Proofs.Grid.Continuations

/-!
# The search finds all canonical boundaries, in order

`left` lists what a search has yet to find. A call of `next` takes the first entry of that list,
and a new search has all canonical boundaries left.
-/

namespace BoundaryAtlas

namespace Search

/-! ## The steps of a search -/

theorem resume_cons (s : Search) (rest : Nat) (q : GridPoint) (path : List GridPoint) :
    s.resume rest (q :: path) =
      (s.fillFrom rest path (s.nodeAfter q)).or (s.resume (rest + 1) path) := by
  rw [resume, Machine.resume, Id.run_bind, Id.run_bind, ← nodeAfter, ← fillFrom]
  cases s.fillFrom rest path (s.nodeAfter q) <;> rfl

theorem next?_eq (s : Search) :
    s.next? = match s.position with
      | .start => s.fill (s.kinks + 2) []
      | .after path => s.resume 0 path
      | .finished => none := by
  unfold next? Machine.path
  cases s.position <;> rfl

theorem next_eq (s : Search) :
    s.next = match s.next? with
      | some path => (some ⟨path.reverse⟩, { s with position := .after path })
      | none => (none, { s with position := .finished }) := by
  rw [next, Machine.next, Id.run_bind, ← next?]
  cases s.next? with
  | none => rfl
  | some path => cases path <;> rfl

theorem visitUpTo_succ {β : Type} (visit : β → GridBoundary → Bool × β) (limit : Nat) (s : Search)
    (state : β) :
    visitUpTo visit (limit + 1) s state =
      match s.next with
      | (none, after) => (state, after)
      | (some b, after) =>
        match visit state b with
        | (false, state) => (state, s)
        | (true, state) => visitUpTo visit limit after state := by
  rw [visitUpTo, Machine.visitUpTo, Id.run_bind, ← next]
  obtain ⟨_ | b, after⟩ := s.next
  · rfl
  · rcases h : visit state b with ⟨_ | _, _⟩ <;> simp [h, visitUpTo]

theorem visit_eq {β : Type} (visit : β → GridBoundary → Bool × β) (s : Search) (state : β) :
    s.visit visit state = (visitUpTo visit (s.bound + 1) s state).1 := rfl

theorem toList_eq (s : Search) :
    s.toList = (s.visit (fun found b => (true, found.push b)) #[]).toList := rfl

/-! ## What a search has left -/

/-- The boundaries after the one with the points `path`, of which the last comes first. -/
def remaining (s : Search) : (rest : Nat) → (path : List GridPoint) → List (List GridPoint)
  | _, [] => []
  | rest, q :: path =>
    (s.continuationsFrom rest path (s.nodeAfter q)).map (path.reverse ++ ·) ++
      s.remaining (rest + 1) path

/-- The boundaries that a search has yet to find, in order. -/
def left (s : Search) : List (List GridPoint) :=
  match s.position with
  | .start => s.continuations (s.kinks + 2) []
  | .after path => s.remaining 0 path
  | .finished => []

theorem flatMap_eq_append_cons {β γ : Type} (f : β → List γ) (l : List β) (before : List γ) (c : γ)
    (after : List γ) (h : l.flatMap f = before ++ c :: after) :
    ∃ l₁ b l₂ mid₁ mid₂, l = l₁ ++ b :: l₂ ∧ f b = mid₁ ++ c :: mid₂ ∧
      after = mid₂ ++ l₂.flatMap f := by
  induction l generalizing before with
  | nil => simp at h
  | cons b l ih =>
    rw [List.flatMap_cons, List.append_eq_append_iff] at h
    rcases h with ⟨mid, rfl, h⟩ | ⟨mid, hb, h⟩
    · obtain ⟨l₁, b', l₂, mid₁, mid₂, rfl, hb', rfl⟩ := ih mid h
      exact ⟨b :: l₁, b', l₂, mid₁, mid₂, rfl, hb', rfl⟩
    · cases mid with
      | nil =>
        obtain ⟨l₁, b', l₂, mid₁, mid₂, rfl, hb', rfl⟩ := ih [] h.symm
        exact ⟨b :: l₁, b', l₂, mid₁, mid₂, rfl, hb', rfl⟩
      | cons c' mid =>
        obtain ⟨rfl, rfl⟩ := List.cons.inj h
        exact ⟨[], b, l, before, mid, rfl, hb, rfl⟩

/-- After one way to go on come the later ones, and then what comes after the path itself. -/
theorem remaining_of_continuationsFrom (s : Search) (rest : Nat)
    (hrest : ∀ path before l after, s.continuations rest path = before ++ l :: after →
      s.remaining 0 (l.reverse ++ path) =
        after.map (path.reverse ++ ·) ++ s.remaining rest path)
    (path : List GridPoint) (start : GridPoint) (before : List (List GridPoint))
    (l : List GridPoint) (after : List (List GridPoint))
    (h : s.continuationsFrom rest path start = before ++ l :: after) :
    s.remaining 0 (l.reverse ++ path) =
      after.map (path.reverse ++ ·) ++ s.remaining (rest + 1) path := by
  obtain ⟨l₁, p, l₂, mid₁, mid₂, hchoices, hp, rfl⟩ := flatMap_eq_append_cons _ _ _ _ _ h
  obtain ⟨ways₁, ways₂, hways, rfl, hcons⟩ := List.map_eq_append_iff.mp hp
  obtain ⟨l, ways₃, rfl, rfl, rfl⟩ := List.map_eq_cons_iff.mp hcons
  have hnext : s.continuationsFrom rest path (s.nodeAfter p) =
      l₂.flatMap fun p => (s.continuations rest (p :: path)).map (p :: ·) := by
    rw [continuationsFrom, s.choices_nodeAfter rest path start p l₁ l₂ hchoices]
  -- What comes after the longer path starts with the later choices for its last point.
  have htail := hrest (p :: path) ways₁ l ways₃ hways
  rw [remaining, hnext] at htail
  simpa [Function.comp_def] using htail

theorem remaining_of_continuations (s : Search) (rest : Nat) (path : List GridPoint)
    (before : List (List GridPoint)) (l : List GridPoint) (after : List (List GridPoint))
    (h : s.continuations rest path = before ++ l :: after) :
    s.remaining 0 (l.reverse ++ path) =
      after.map (path.reverse ++ ·) ++ s.remaining rest path := by
  induction rest generalizing path before l after with
  | zero =>
    obtain ⟨rfl, rfl, rfl⟩ : before = [] ∧ l = [] ∧ after = [] := by
      rw [continuations, List.singleton_eq_append_iff] at h
      simpa using h
    rfl
  | succ rest ih => exact s.remaining_of_continuationsFrom rest ih path ⟨0, 0⟩ before l after h

theorem resume_eq (s : Search) (rest : Nat) (path : List GridPoint) :
    s.resume rest path = (s.remaining rest path).head?.map List.reverse := by
  induction path generalizing rest with
  | nil => rfl
  | cons q path ih =>
    rw [resume_cons, remaining, fillFrom_eq, ih]
    cases s.continuationsFrom rest path (s.nodeAfter q) <;> simp

theorem remaining_head (s : Search) (rest : Nat) (path l : List GridPoint)
    (after : List (List GridPoint)) (h : s.remaining rest path = l :: after) :
    s.remaining 0 l.reverse = after := by
  induction path generalizing rest with
  | nil => simp [remaining] at h
  | cons q path ih =>
    rw [remaining] at h
    cases hways : s.continuationsFrom rest path (s.nodeAfter q) with
    | nil => exact ih (rest + 1) (by simpa [hways] using h)
    | cons way ways =>
      rw [hways, List.map_cons, List.cons_append, List.cons.injEq] at h
      obtain ⟨rfl, rfl⟩ := h
      rw [List.reverse_append, List.reverse_reverse]
      exact s.remaining_of_continuationsFrom rest (s.remaining_of_continuations rest) path _ [] way
        ways hways

/-- The search after it found `l`. -/
def foundAt (s : Search) (l : List GridPoint) : Search := { s with position := .after l.reverse }

theorem continuations_foundAt (s : Search) (l : List GridPoint) (rest : Nat)
    (path : List GridPoint) :
    (s.foundAt l).continuations rest path = s.continuations rest path := by
  induction rest generalizing path with
  | zero => rfl
  | succ rest ih =>
    simp only [continuations, ih]
    rfl

theorem remaining_foundAt (s : Search) (l : List GridPoint) (rest : Nat) (path : List GridPoint) :
    (s.foundAt l).remaining rest path = s.remaining rest path := by
  induction path generalizing rest with
  | nil => rfl
  | cons q path ih =>
    simp only [remaining, ih, continuationsFrom, continuations_foundAt]
    rfl

theorem next_of_left_nil (s : Search) (h : s.left = []) :
    s.next = (none, { s with position := .finished }) := by
  obtain ⟨numX, numY, kinks, position⟩ := s
  cases position <;> simp_all [next_eq, next?_eq, left, fill_eq, resume_eq]

theorem next_of_left_cons (s : Search) (l : List GridPoint) (after : List (List GridPoint))
    (h : s.left = l :: after) : s.next = (some ⟨l⟩, s.foundAt l) := by
  obtain ⟨numX, numY, kinks, position⟩ := s
  cases position <;> simp_all [next_eq, next?_eq, left, fill_eq, resume_eq, foundAt]

theorem left_foundAt (s : Search) (l : List GridPoint) (after : List (List GridPoint))
    (h : s.left = l :: after) : (s.foundAt l).left = after := by
  have hleft : (s.foundAt l).left = s.remaining 0 l.reverse := s.remaining_foundAt l 0 l.reverse
  rw [hleft]
  unfold left at h
  split at h
  · have := s.remaining_of_continuations _ [] [] l after h
    simpa [remaining] using this
  · exact s.remaining_head 0 _ l after h
  · simp at h

/-! ## Running a search -/

/-- What `next` answers after `n` earlier calls. -/
def answer? (s : Search) (n : Nat) : Option GridBoundary := (s.afterCalls n).next.1

theorem answer?_eq (s : Search) (n : Nat) : s.answer? n = s.left[n]?.map GridBoundary.mk := by
  induction n generalizing s with
  | zero =>
    show s.next.1 = _
    cases hleft : s.left with
    | nil => rw [s.next_of_left_nil hleft]; rfl
    | cons l after => rw [s.next_of_left_cons l after hleft]; rfl
  | succ n ih =>
    have hstep : s.answer? (n + 1) = s.next.2.answer? n := rfl
    rw [hstep, ih]
    cases hleft : s.left with
    | nil =>
      rw [s.next_of_left_nil hleft]
      rfl
    | cons l after =>
      rw [s.next_of_left_cons l after hleft, s.left_foundAt l after hleft]
      rfl

/-- Gives each boundary to `visit`, until that answers with `false`. -/
def visitAll {β : Type} (visit : β → GridBoundary → Bool × β) : List (List GridPoint) → β → β
  | [], state => state
  | l :: rest, state =>
    match visit state ⟨l⟩ with
    | (false, state) => state
    | (true, state) => visitAll visit rest state

theorem visitUpTo_eq {β : Type} (visit : β → GridBoundary → Bool × β) (limit : Nat) (s : Search)
    (state : β) : (visitUpTo visit limit s state).1 = visitAll visit (s.left.take limit) state := by
  induction limit generalizing s state with
  | zero => rfl
  | succ limit ih =>
    rw [visitUpTo_succ]
    cases hleft : s.left with
    | nil => rw [s.next_of_left_nil hleft]; rfl
    | cons l after =>
      rw [s.next_of_left_cons l after hleft, List.take_succ_cons]
      simp only [visitAll]
      rw [← s.left_foundAt l after hleft]
      rcases visit state ⟨l⟩ with ⟨_ | _, state'⟩
      · rfl
      · exact ih _ _

theorem length_left_new_le {α : Type} (d : Grid α) (n : Nat) :
    (new d n).left.length ≤ (new d n).bound := by
  unfold left bound
  by_cases h : d.kinkLimit < n
  · simp [new, h]
  · have := (new d n).length_continuations_le (n + 2) []
    simpa [new, h] using this

theorem visit_new {α β : Type} (visit : β → GridBoundary → Bool × β) (d : Grid α) (n : Nat)
    (state : β) : (new d n).visit visit state = visitAll visit (new d n).left state := by
  rw [visit_eq, visitUpTo_eq, List.take_of_length_le]
  exact (length_left_new_le d n).trans (Nat.le_succ _)

theorem visitAll_eq_foldl {β : Type} (visit : β → GridBoundary → β) (l : List (List GridPoint))
    (state : β) :
    visitAll (fun state b => (true, visit state b)) l state =
      (l.map GridBoundary.mk).foldl visit state := by
  induction l generalizing state with
  | nil => rfl
  | cons b l ih => exact ih _

theorem toList_new {α : Type} (d : Grid α) (n : Nat) :
    (new d n).toList = (new d n).left.map GridBoundary.mk := by
  have hpush : ∀ (l : List GridBoundary) (found : Array GridBoundary),
      (l.foldl Array.push found).toList = found.toList ++ l := by
    intro l found
    simp
  rw [toList_eq, visit_new, visitAll_eq_foldl, hpush]
  rfl

/-! ## The enumeration -/

theorem mem_toList_new {α : Type} (d : Grid α) (n : Nat) (b : GridBoundary) :
    b ∈ (new d n).toList ↔ b.IsCanonical d n := by
  obtain ⟨points⟩ := b
  have hmem : ⟨points⟩ ∈ (new d n).toList ↔ points ∈ (new d n).left := by
    simp [toList_new]
  rw [hmem]
  by_cases h : d.kinkLimit < n
  · have hnone : (new d n).left = [] := by simp [left, new, h]
    rw [hnone]
    simp only [List.not_mem_nil, false_iff]
    intro hb
    have := kinks_le_of_isCanonical hb
    omega
  · have hstart : (new d n).left = (new d n).continuations (n + 2) [] := by simp [left, new, h]
    have hmem' := (new d n).mem_continuations (n + 2) [] points trivial fun _ => Nat.le_add_left 2 n
    rw [hstart, hmem', isCanonical_iff, List.append_nil]
    rfl

theorem toList_new_sorted {α : Type} (d : Grid α) (n : Nat) :
    (new d n).toList.Pairwise fun a b => GridBoundary.cmp a b = .lt := by
  rw [toList_new, List.pairwise_map]
  unfold left
  split
  · exact continuations_sorted _ _ _
  · rename_i path h
    unfold new at h
    simp only at h
    split at h <;> simp at h
  · exact List.Pairwise.nil

/-- **The enumeration.** The calls of `next` answer with the canonical boundaries in increasing
order, each of them once, and with nothing ever after. -/
theorem enumerates_canonical {α : Type} (d : Grid α) (n : Nat) :
    (∀ i, (new d n).answer? i = (new d n).toList[i]?) ∧
    (new d n).toList.Pairwise (fun a b => GridBoundary.cmp a b = .lt) ∧
    ∀ b, b ∈ (new d n).toList ↔ b.IsCanonical d n := by
  refine ⟨fun i => ?_, toList_new_sorted d n, mem_toList_new d n⟩
  rw [answer?_eq, toList_new, List.getElem?_map]

end Search

end BoundaryAtlas
