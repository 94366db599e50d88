import Mathlib.Tactic

/-! Total correctness of stateful computations that may stop with a fault. -/

namespace CourseArchive.Lib

abbrev Comp (σ ε α : Type) := StateT σ (Except ε) α

variable {σ ε α β : Type}

def Returns (m : Comp σ ε α) (s : σ) (Q : α → σ → Prop) : Prop :=
  ∃ a t, m s = .ok (a, t) ∧ Q a t

def Ensures (m : Comp σ ε α) (s : σ) (Q : α → σ → Prop) : Prop :=
  ∀ a t, m s = .ok (a, t) → Q a t

lemma bind_ok {m : Comp σ ε α} {f : α → Comp σ ε β} {s t : σ} {a : α} (h : m s = .ok (a, t)) :
    (m >>= f) s = f a t := by
  change (m s >>= fun p => f p.1 p.2) = _
  rw [h]
  rfl

lemma bind_error {m : Comp σ ε α} {f : α → Comp σ ε β} {s : σ} {e : ε} (h : m s = .error e) :
    (m >>= f) s = .error e := by
  change (m s >>= fun p => f p.1 p.2) = _
  rw [h]
  rfl

lemma bind_inv {m : Comp σ ε α} {f : α → Comp σ ε β} {s u : σ} {b : β}
    (h : (m >>= f) s = .ok (b, u)) : ∃ a t, m s = .ok (a, t) ∧ f a t = .ok (b, u) := by
  cases hm : m s with
  | error e => rw [bind_error hm] at h; cases h
  | ok p => exact ⟨p.1, p.2, rfl, by rwa [bind_ok hm] at h⟩

/-! Running the primitive computations. -/

lemma pure_run (a : α) (s : σ) : (pure a : Comp σ ε α) s = .ok (a, s) := rfl

lemma modify_run (u : σ → σ) (s : σ) : (modify u : Comp σ ε PUnit) s = .ok (⟨⟩, u s) := rfl

lemma bind_get (f : σ → Comp σ ε β) (s : σ) : (get >>= f) s = f s s := rfl

lemma bind_modify (u : σ → σ) (f : PUnit → Comp σ ε β) (s : σ) :
    (modify u >>= f) s = f ⟨⟩ (u s) := rfl

lemma bind_pure_run (a : α) (f : α → Comp σ ε β) (s : σ) : ((pure a : Comp σ ε α) >>= f) s = f a s := rfl

lemma bind_assoc_run {γ : Type} (m : Comp σ ε α) (f : α → Comp σ ε β) (g : β → Comp σ ε γ) (s : σ) :
    ((m >>= f) >>= g) s = (m >>= fun a => f a >>= g) s := by rw [bind_assoc]

namespace Returns

variable {m : Comp σ ε α} {f : α → Comp σ ε β} {s : σ} {P Q : α → σ → Prop} {R : β → σ → Prop}

lemma pure {a : α} (h : Q a s) : Returns (Pure.pure a : Comp σ ε α) s Q := ⟨a, s, rfl, h⟩

lemma bind (h : Returns m s P) (hf : ∀ a t, P a t → Returns (f a) t R) :
    Returns (m >>= f) s R := by
  obtain ⟨a, t, hm, hp⟩ := h
  obtain ⟨b, u, hb, hr⟩ := hf a t hp
  exact ⟨b, u, by rw [bind_ok hm, hb], hr⟩

lemma after {a : α} {t : σ} (h : m s = .ok (a, t)) (hf : Returns (f a) t R) : Returns (m >>= f) s R := by
  obtain ⟨b, u, hb, hr⟩ := hf
  exact ⟨b, u, by rw [bind_ok h, hb], hr⟩

lemma mono (h : Returns m s P) (hpq : ∀ a t, P a t → Q a t) : Returns m s Q := by
  obtain ⟨a, t, hm, hp⟩ := h
  exact ⟨a, t, hm, hpq a t hp⟩

lemma and_ensures (h : Returns m s P) (he : Ensures m s Q) :
    Returns m s (fun a t => P a t ∧ Q a t) := by
  obtain ⟨a, t, hm, hp⟩ := h
  exact ⟨a, t, hm, hp, he a t hm⟩

lemma and (h : Returns m s P) (h' : Returns m s Q) : Returns m s (fun a t => P a t ∧ Q a t) := by
  obtain ⟨a, t, hm, hp⟩ := h
  obtain ⟨b, u, hm', hq⟩ := h'
  obtain ⟨rfl, rfl⟩ : a = b ∧ t = u := by simpa using hm.symm.trans hm'
  exact ⟨a, t, hm, hp, hq⟩

lemma get_bind {g : σ → Comp σ ε β} (h : Returns (g s) s R) :
    Returns (MonadState.get >>= g) s R := h

lemma modify_bind {u : σ → σ} {g : PUnit → Comp σ ε β} (h : Returns (g ⟨⟩) (u s) R) :
    Returns (modify u >>= g) s R := h

lemma modify_end {u : σ → σ} {R : PUnit → σ → Prop} (h : R ⟨⟩ (u s)) :
    Returns (modify u : Comp σ ε PUnit) s R := ⟨⟨⟩, u s, rfl, h⟩

lemma ite {c : Prop} [Decidable c] {m n : Comp σ ε α} (ht : c → Returns m s Q)
    (hf : ¬c → Returns n s Q) : Returns (if c then m else n) s Q := by
  split
  · exact ht ‹_›
  · exact hf ‹_›

lemma bind_pure_iff (g : α → β) :
    Returns (m >>= fun a => Pure.pure (g a)) s (fun _ _ => True) ↔ Returns m s fun _ _ => True := by
  refine ⟨?_, fun h => h.bind fun _ _ _ => Returns.pure trivial⟩
  rintro ⟨b, u, hb, -⟩
  obtain ⟨a, t, ha, -⟩ := bind_inv hb
  exact ⟨a, t, ha, trivial⟩

end Returns

namespace Ensures

variable {m : Comp σ ε α} {f : α → Comp σ ε β} {s : σ} {P Q : α → σ → Prop} {R : β → σ → Prop}

lemma pure {a : α} (h : Q a s) : Ensures (Pure.pure a : Comp σ ε α) s Q := by
  rintro _ _ ⟨⟩
  exact h

lemma bind (h : Ensures m s P) (hf : ∀ a t, P a t → Ensures (f a) t R) :
    Ensures (m >>= f) s R := by
  intro b u hb
  obtain ⟨a, t, hm, hfa⟩ := bind_inv hb
  exact hf a t (h a t hm) b u hfa

lemma mono (h : Ensures m s P) (hpq : ∀ a t, P a t → Q a t) : Ensures m s Q :=
  fun a t hm => hpq a t (h a t hm)

lemma ite {c : Prop} [Decidable c] {m n : Comp σ ε α} (ht : c → Ensures m s Q)
    (hf : ¬c → Ensures n s Q) : Ensures (if c then m else n) s Q := by
  split
  · exact ht ‹_›
  · exact hf ‹_›

lemma throw {e : ε} : Ensures (MonadExcept.throw e : Comp σ ε α) s Q := by
  rintro a t ⟨⟩

end Ensures

end CourseArchive.Lib
