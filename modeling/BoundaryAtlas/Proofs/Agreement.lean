import BoundaryAtlas.Machine

/-!
# What machines answer

A sound machine answers what the ideal machine does, unless it stops. A program is a chain of steps,
so this is proved of each program by one rule for two steps in a row.
-/

namespace BoundaryAtlas

theorem mapM_eq_some_map {β γ : Type} {f : β → Option γ} {g : β → γ} {l : List β}
    (h : ∀ x ∈ l, f x = some (g x)) : l.mapM f = some (l.map g) := by
  induction l with
  | nil => rfl
  | cons x l ih =>
    obtain ⟨hx, hl⟩ := List.forall_mem_cons.mp h
    rw [List.mapM_cons, hx, ih hl]
    rfl

namespace Machine

variable {β γ : Type}

/-- The result is `y`, where there is one. -/
def Agrees (x : Option β) (y : β) : Prop := ∀ a ∈ x, a = y

theorem agrees_some (y : β) : Agrees (some y) y := by
  rintro _ ⟨rfl⟩
  rfl

theorem agrees_none (y : β) : Agrees none y := by
  rintro _ ⟨⟩

theorem Agrees.bind {x : Option β} {y : Id β} {f : β → Option γ} {g : β → Id γ}
    (h : Agrees x y.run) (hf : Agrees (f y.run) (g y.run).run) :
    Agrees (x >>= f) (y >>= g).run := by
  cases x with
  | none => exact agrees_none _
  | some a =>
    obtain rfl := h a rfl
    exact hf

theorem Agrees.eq_some {x : Option β} {y : β} (h : Agrees x y) (hx : x.isSome = true) :
    x = some y := by
  obtain ⟨a, rfl⟩ := Option.isSome_iff_exists.mp hx
  rw [h a rfl]

theorem isSome_bind {x : Option β} {f : β → Option γ} (hx : x.isSome = true)
    (hf : ∀ a ∈ x, (f a).isSome = true) : (x >>= f).isSome = true := by
  obtain ⟨a, rfl⟩ := Option.isSome_iff_exists.mp hx
  exact hf a rfl

theorem exists_of_isSome_bind {x : Option β} {f : β → Option γ}
    (hx : (x >>= f).isSome = true) : ∃ a ∈ x, (f a).isSome = true := by
  cases x with
  | none => cases hx
  | some a => exact ⟨a, rfl, hx⟩

theorem agrees_foldlM {f : β → γ → Option β} {g : β → γ → Id β}
    (hf : ∀ b c, Agrees (f b c) (g b c).run) (l : List γ) (b : β) :
    Agrees (l.foldlM f b) (l.foldlM g b).run := by
  induction l generalizing b with
  | nil => exact agrees_some _
  | cons c l ih =>
    rw [List.foldlM_cons, List.foldlM_cons]
    exact (hf b c).bind (ih _)

theorem Agrees.mapM {f : β → Option γ} {g : β → Id γ} (hf : ∀ b, Agrees (f b) (g b).run)
    (l : List β) : Agrees (l.mapM f) (l.mapM g).run := by
  induction l with
  | nil => exact agrees_some _
  | cons b l ih =>
    rw [List.mapM_cons, List.mapM_cons]
    exact (hf b).bind (ih.bind (agrees_some _))

theorem isSome_of_isSome_mapM {f : β → Option γ} {l : List β} (h : (l.mapM f).isSome = true) :
    ∀ b ∈ l, (f b).isSome = true := by
  induction l with
  | nil => simp
  | cons b l ih =>
    rw [List.mapM_cons] at h
    obtain ⟨c, hc, h⟩ := exists_of_isSome_bind h
    obtain ⟨cs, hcs, -⟩ := exists_of_isSome_bind h
    exact List.forall_mem_cons.mpr ⟨Option.isSome_iff_exists.mpr ⟨c, hc⟩,
      ih (Option.isSome_iff_exists.mpr ⟨cs, hcs⟩)⟩

/-- A machine whose counts are those of the ideal one, where it has them. -/
structure Sound (M : Machine Option) : Prop where
  index : ∀ n, Agrees (M.index n) n
  signed : ∀ z, Agrees (M.signed z) z
  size : ∀ n, Agrees (M.size n) n
  bytes : ∀ n, Agrees (M.bytes n) n

theorem below_agrees (bound n : Nat) : Agrees (below bound n) n := by
  unfold below
  split
  · exact agrees_some n
  · exact agrees_none n

theorem lt_of_mem_below {bound n a : Nat} (h : a ∈ below bound n) : n < bound := by
  unfold below at h
  split at h
  · assumption
  · cases h

theorem bounds_of_mem_signedWord {z a : Int} (h : a ∈ signedWord z) :
    -(twoPow 63 : Int) ≤ z ∧ z < (twoPow 63 : Int) := by
  unfold signedWord at h
  split at h
  · assumption
  · cases h

theorem signedWord_agrees (z : Int) : Agrees (signedWord z) z := by
  unfold signedWord
  split
  · exact agrees_some z
  · exact agrees_none z

theorem sound_checked : checked.Sound := ⟨agrees_some, agrees_some, agrees_some, agrees_some⟩

theorem sound_words : words.Sound :=
  ⟨below_agrees _, signedWord_agrees, below_agrees _, below_agrees _⟩

variable {M : Machine Option}

theorem Sound.succ (hM : M.Sound) (n : Nat) : Agrees (M.succ n) (ideal.succ n).run :=
  hM.index (n + 1)

end Machine

end BoundaryAtlas
