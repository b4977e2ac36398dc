import BoundaryAtlas.Proofs.Atlas.InOrder

/-!
# Whose answer is whose

The input is cut into lines, and each question takes lines until one of them decides it. The next
question goes on with the line after that one, so no answer is heard twice and none is lost.
-/

namespace BoundaryAtlas.Prompt

/-! ## Lines -/

/-- The input is cut after each newline, and nowhere else. -/
inductive IsCut : List UInt8 → List (List UInt8) → Prop
  | nothing : IsCut [] []
  | unended (text : List UInt8) (hne : text ≠ []) (htext : newline ∉ text) : IsCut text [text]
  | ended (text rest : List UInt8) (later : List (List UInt8)) (htext : newline ∉ text)
      (hrest : IsCut rest later) :
      IsCut (text ++ newline :: rest) ((text ++ [newline]) :: later)

theorem isCut_lines (input : List UInt8) : IsCut input (lines input) := by
  induction input with
  | nil => exact .nothing
  | cons b input ih =>
    unfold lines
    split
    · rename_i hb
      subst hb
      exact .ended [] input (lines input) (by simp) ih
    · rename_i hb
      -- the byte goes in front of the first line, whatever that is
      generalize lines input = ls at ih ⊢
      cases ih with
      | nothing => exact .unended [b] (by simp) (by simpa [eq_comm] using hb)
      | unended text hne htext =>
        exact .unended (b :: input) (by simp) (by simp [htext, Ne.symm hb])
      | ended text rest later htext hrest =>
        exact .ended (b :: text) rest later (by simp [htext, Ne.symm hb]) hrest

theorem flatten_lines (input : List UInt8) : (lines input).flatten = input := by
  have h := isCut_lines input
  generalize lines input = ls at h ⊢
  induction h with
  | nothing => rfl
  | unended text _ _ => simp
  | ended text rest later _ _ ih => simp [ih]

/-! ## Answers -/

/-- The text of a line in small letters, without the blanks around it. -/
def word? (line : List UInt8) : Option String :=
  (String.fromUTF8? ⟨line.toArray⟩).map fun text =>
    String.ofList ((Text.trim text.toList).map Char.toLower)

def Affirms (line : List UInt8) : Prop := word? line = some "y" ∨ word? line = some "yes"

def Denies (line : List UInt8) : Prop := word? line = some "n" ∨ word? line = some "no"

/-- The line is an answer, or no text at all. -/
def Decides (line : List UInt8) : Prop := word? line = none ∨ Affirms line ∨ Denies line

theorem ofLine_eq_yes_iff (line : List UInt8) : Answer.ofLine line = .yes ↔ Affirms line := by
  unfold Answer.ofLine Affirms word?
  cases String.fromUTF8? ⟨line.toArray⟩ with
  | none => simp
  | some text =>
    simp only [Answer.ofText, Option.map_some, Option.some.injEq]
    split
    · simpa
    · rename_i hother
      rw [not_or] at hother
      split <;> simpa using hother

theorem ofLine_eq_unclear_iff (line : List UInt8) :
    Answer.ofLine line = .unclear ↔ ¬ Decides line := by
  unfold Answer.ofLine Decides Affirms Denies word?
  cases String.fromUTF8? ⟨line.toArray⟩ with
  | none => simp
  | some text =>
    simp only [Answer.ofText, Option.map_some, Option.some.injEq, reduceCtorEq, false_or]
    split
    · simp_all
    · split <;> simp_all

/-! ## One question -/

/-- What a call about a trace makes of the lines before it: it takes some, and leaves the rest. -/
inductive Call (trace : Trace Float) : (taken rest : List (List UInt8)) → Bool → Prop
  | skipped (htrace : trace = []) (rest : List (List UInt8)) : Call trace [] rest false
  | decided (htrace : trace ≠ []) (unclear : List (List UInt8)) (line : List UInt8)
      (rest : List (List UInt8)) (verdict : Bool) (hunclear : ∀ l ∈ unclear, ¬ Decides l)
      (hline : Decides line) (hverdict : verdict = true ↔ Affirms line) :
      Call trace (unclear ++ [line]) rest verdict
  | exhausted (htrace : trace ≠ []) (unclear : List (List UInt8))
      (hunclear : ∀ l ∈ unclear, ¬ Decides l) : Call trace unclear [] false

theorem Call.cons_unclear {trace : Trace Float} {taken rest : List (List UInt8)} {verdict : Bool}
    (h : Call trace taken rest verdict) (htrace : trace ≠ []) {line : List UInt8}
    (hline : ¬ Decides line) : Call trace (line :: taken) rest verdict := by
  cases h with
  | skipped hempty => exact absurd hempty htrace
  | decided _ unclear last _ _ hunclear hlast hverdict =>
    exact .decided htrace (line :: unclear) last rest verdict
      (List.forall_mem_cons.mpr ⟨hline, hunclear⟩) hlast hverdict
  | exhausted _ _ hunclear =>
    exact .exhausted htrace (line :: taken) (List.forall_mem_cons.mpr ⟨hline, hunclear⟩)

theorem ask_cons (s : State) (line : List UInt8) (left : List (List UInt8)) (written : String) :
    (Answer.ofLine line = .unclear ∧
      ask s (line :: left) written = ask s left (written ++ question ++ reminder)) ∨
    (Answer.ofLine line ≠ .unclear ∧
      ask s (line :: left) written = (decide (Answer.ofLine line = .yes),
        { s with left, written := written ++ question })) := by
  rw [ask]
  cases Answer.ofLine line <;> simp

theorem exists_call_ask (s : State) (trace : Trace Float) (htrace : trace ≠ [])
    (left : List (List UInt8)) (written : String) :
    (ask s left written).2.broken = s.broken ∧
    ∃ taken, taken ++ (ask s left written).2.left = left ∧
      Call trace taken (ask s left written).2.left (ask s left written).1 := by
  induction left generalizing written with
  | nil => exact ⟨rfl, [], rfl, .exhausted htrace [] (by simp)⟩
  | cons line left ih =>
    obtain ⟨hunclear, hask⟩ | ⟨hclear, hask⟩ := ask_cons s line left written
    · obtain ⟨hbroken, taken, htaken, hcall⟩ := ih (written ++ question ++ reminder)
      rw [hask]
      refine ⟨hbroken, line :: taken, by rw [List.cons_append, htaken], ?_⟩
      exact hcall.cons_unclear htrace ((ofLine_eq_unclear_iff line).mp hunclear)
    · rw [hask]
      have hline : Decides line := by
        by_contra h
        exact hclear ((ofLine_eq_unclear_iff line).mpr h)
      refine ⟨rfl, [line], rfl, .decided htrace [] line left _ (by simp) hline ?_⟩
      rw [decide_eq_true_eq, ofLine_eq_yes_iff]

theorem exists_call_classify (s : State) (hs : s.broken = false) (trace : Trace Float) :
    (classify s trace).2.broken = false ∧
    ∃ taken, taken ++ (classify s trace).2.left = s.left ∧
      Call trace taken (classify s trace).2.left (classify s trace).1 := by
  cases trace with
  | nil => exact ⟨hs, [], rfl, .skipped rfl s.left⟩
  | cons first trace =>
    have hne : first :: trace ≠ [] := List.cons_ne_nil _ _
    have hclassify : classify s (first :: trace) = ask s s.left
        (s.written ++ summary (first :: trace) first ((first :: trace).getLast hne)) := by
      unfold classify
      rw [List.head?_cons, List.getLast?_eq_some_getLast hne, hs]
      rfl
    rw [hclassify]
    have hcall := exists_call_ask s (first :: trace) hne s.left
      (s.written ++ summary (first :: trace) first ((first :: trace).getLast hne))
    rwa [hs] at hcall

/-! ## Many questions -/

theorem exists_calls (s : State) (hs : s.broken = false) (traces : List (Trace Float)) :
    ∃ taken : List (List (List UInt8)), taken.length = traces.length ∧
      taken.flatten ++ (labeler.classifyAll s traces).2.left = s.left ∧
      ∀ (i : Nat) trace piece verdict, traces[i]? = some trace → taken[i]? = some piece →
        (labeler.classifyAll s traces).1[i]? = some verdict →
        Call trace piece
          ((taken.drop (i + 1)).flatten ++ (labeler.classifyAll s traces).2.left) verdict := by
  induction traces generalizing s with
  | nil => exact ⟨[], rfl, rfl, by simp⟩
  | cons trace traces ih =>
    obtain ⟨hbroken, piece, hpiece, hcall⟩ := exists_call_classify s hs trace
    obtain ⟨taken, hlength, hleft, hcalls⟩ := ih (classify s trace).2 hbroken
    refine ⟨piece :: taken, by simp [hlength], ?_, ?_⟩
    · change (piece :: taken).flatten ++ (labeler.classifyAll (classify s trace).2 traces).2.left = _
      rw [List.flatten_cons, List.append_assoc, hleft, hpiece]
    · intro i
      cases i with
      | zero =>
        rintro _ _ _ ⟨rfl⟩ ⟨rfl⟩ ⟨rfl⟩
        change Call trace piece
          (taken.flatten ++ (labeler.classifyAll (classify s trace).2 traces).2.left) _
        rw [hleft]
        exact hcall
      | succ i => exact hcalls i

theorem classifyAll_broken (s : State) (hs : s.broken = true) (traces : List (Trace Float)) :
    labeler.classifyAll s traces = (List.replicate traces.length false, s) := by
  induction traces with
  | nil => rfl
  | cons trace traces ih =>
    have hclassify : labeler.classify s trace = (false, s) := by
      change classify s trace = _
      unfold classify
      split
      · rw [hs]
        rfl
      · rfl
    rw [Labeler.classifyAll, hclassify, ih]
    rfl

/-- **Conversations.** The input is cut into lines, and the calls take them one after the other: an
empty trace takes none and is negative, and any other takes those up to the first one that decides,
or all that are left. It is positive exactly if that line affirms. If nothing can be written, then
every call is negative and takes nothing. -/
theorem classifyAll_shares_lines (input : List UInt8) (traces : List (Trace Float)) :
    let run := labeler.classifyAll (.ofBytes input false) traces
    IsCut input (lines input) ∧ (lines input).flatten = input ∧
    run.1.length = traces.length ∧
    (∃ taken : List (List (List UInt8)), taken.length = traces.length ∧
      taken.flatten ++ run.2.left = lines input ∧
      ∀ (i : Nat) trace piece verdict, traces[i]? = some trace → taken[i]? = some piece →
        run.1[i]? = some verdict →
        Call trace piece ((taken.drop (i + 1)).flatten ++ run.2.left) verdict) ∧
    labeler.classifyAll (.ofBytes input true) traces =
      (List.replicate traces.length false, .ofBytes input true) :=
  ⟨isCut_lines input, flatten_lines input, Labeler.length_classifyAll _ _ _,
    exists_calls _ rfl traces, classifyAll_broken _ rfl traces⟩

/-- A person who says something else first, then yes, then writes a byte that is no text, then no. -/
example : (labeler.classifyAll (.ofBytes [63, 10, 89, 101, 115, 10, 255, 10, 110] false)
    [[⟨0, 0⟩], [], [⟨1, 0⟩], [⟨2, 0⟩]]).1 = [true, false, false, false] := by decide +kernel

end BoundaryAtlas.Prompt
