import CourseArchive.Lib.Positive
import Mathlib.Logic.Relation
import Mathlib.Tactic

/-! Runs of a system whose moves may be restricted, and what holds along them. -/

namespace CourseArchive.Lib

variable {σ α : Type*} {step : σ → α → Option σ} {ok : σ → α → Prop} {s t u : σ}

def Follows (step : σ → α → Option σ) (ok : σ → α → Prop) (s t : σ) : Prop := ∃ a, ok s a ∧ step s a = some t

abbrev Reaches (step : σ → α → Option σ) (ok : σ → α → Prop) : σ → σ → Prop :=
  Relation.ReflTransGen (Follows step ok)

def anyMove : σ → α → Prop := fun _ _ => True

lemma Reaches.invariant (I : σ → Prop) (hstep : ∀ s a t, I s → ok s a → step s a = some t → I t)
    (h : Reaches step ok s t) (hs : I s) : I t := by
  induction h with
  | refl => exact hs
  | tail _ ht ih =>
    obtain ⟨a, ha, e⟩ := ht
    exact hstep _ a _ ih ha e

def play (step : σ → α → Option σ) (s : σ) : List α → Option σ
  | [] => some s
  | a :: as => (step s a).bind fun t => play step t as

def AllOk (step : σ → α → Option σ) (ok : σ → α → Prop) (s : σ) : List α → Prop
  | [] => True
  | a :: as => ok s a ∧ match step s a with
    | some t => AllOk step ok t as
    | none => True

instance decidableAllOk [∀ s a, Decidable (ok s a)] (s : σ) : (as : List α) → Decidable (AllOk step ok s as)
  | [] => inferInstanceAs (Decidable True)
  | a :: as =>
    have : Decidable (match step s a with | some t => AllOk step ok t as | none => True) :=
      match step s a with
      | some t => decidableAllOk t as
      | none => inferInstanceAs (Decidable True)
    inferInstanceAs (Decidable (_ ∧ _))

lemma reaches_of_allOk (as : List α) (hok : AllOk step ok s as) (h : play step s as = some t) :
    Reaches step ok s t := by
  induction as generalizing s with
  | nil =>
    obtain rfl : s = t := Option.some_injective _ h
    exact .refl
  | cons a as ih =>
    obtain ⟨u, hu, ht⟩ := Option.bind_eq_some_iff.mp h
    have hrest := hok.2
    rw [hu] at hrest
    exact .head ⟨a, hok.1, hu⟩ (ih hrest ht)

lemma play_of_allOk (I : σ → Prop) (hstep : ∀ s a, I s → ok s a → ∃ t, step s a = some t ∧ I t) (as : List α)
    (hs : I s) (hok : AllOk step ok s as) : ∃ t, play step s as = some t ∧ I t := by
  induction as generalizing s with
  | nil => exact ⟨s, rfl, hs⟩
  | cons a as ih =>
    obtain ⟨t, e, ht⟩ := hstep s a hs hok.1
    have hrest := hok.2
    rw [e] at hrest
    obtain ⟨u, e', hu⟩ := ih ht hrest
    exact ⟨u, by rw [play, e]; exact e', hu⟩

lemma reaches_of_play (as : List α) (h : play step s as = some t) : Reaches step anyMove s t := by
  induction as generalizing s with
  | nil =>
    obtain rfl : s = t := Option.some_injective _ h
    exact .refl
  | cons a as ih =>
    obtain ⟨u, hu, ht⟩ := Option.bind_eq_some_iff.mp h
    exact .head ⟨a, trivial, hu⟩ (ih ht)

end CourseArchive.Lib
