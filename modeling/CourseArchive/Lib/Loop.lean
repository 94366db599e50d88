import CourseArchive.Lib.Outcome

/-! Loops with a bound on the number of turns, and the rule of the decreasing measure. -/

namespace CourseArchive.Lib

variable {σ ε α β : Type}

def loop (stuck : ε) (body : α → Comp σ ε (α ⊕ β)) : ℕ → α → Comp σ ε β
  | 0, _ => throw stuck
  | turns + 1, a => do
    let r ← body a
    Sum.elim (loop stuck body turns) pure r

lemma Returns.loop {stuck : ε} {body : α → Comp σ ε (α ⊕ β)} {I : ℕ → α → σ → Prop} {Q : β → σ → Prop}
    (hbody : ∀ n a s, I n a s →
      Returns (body a) s fun r t => Sum.elim (fun a' => ∃ m < n, I m a' t) (fun b => Q b t) r)
    {turns n : ℕ} {a : α} {s : σ} (hs : I n a s) (hn : n < turns) :
    Returns (Lib.loop stuck body turns a) s Q := by
  induction turns generalizing n a s with
  | zero => omega
  | succ turns ih =>
    refine (hbody n a s hs).bind ?_
    rintro (a' | b) t hr
    · obtain ⟨m, hm, hI⟩ := hr
      exact ih hI (by omega)
    · exact Returns.pure hr

end CourseArchive.Lib
