import Mathlib.Data.Fintype.Card
import Mathlib.Logic.Hydra
import Mathlib.Order.WellFounded
import Mathlib.Tactic

/-! Tokens that are replaced by their successors, one at a time and in any order: when that comes to an end. -/

namespace CourseArchive.Lib

open Relation

variable {α : Type*} {next : α → List α} {a b : α} {s t : List α}

def Fires (next : α → List α) (s t : List α) : Prop :=
  ∃ pre a post, s = pre ++ a :: post ∧ t.Perm (next a ++ (pre ++ post))

def Succeeds (next : α → List α) (b a : α) : Prop := b ∈ next a

instance [DecidableEq α] (next : α → List α) (b a : α) : Decidable (Succeeds next b a) :=
  inferInstanceAs (Decidable (b ∈ next a))

abbrev Dies (next : α → List α) (s : List α) : Prop := Acc (fun t s => Fires next s t) s

lemma not_rel_self_of_acc {r : α → α → Prop} (h : Acc r a) : ¬r a a := by
  induction h with
  | intro a _ ih => exact fun ha => ih a ha ha

lemma fires_cutExpand (ha : ∀ a ∈ s, Acc (Succeeds next) a) (h : Fires next s t) :
    CutExpand (fun b a => Succeeds next b a ∧ Acc (Succeeds next) a) (↑t : Multiset α) ↑s := by
  obtain ⟨pre, a, post, rfl, hp⟩ := h
  refine ⟨↑(next a), a, fun b hb => ⟨hb, ha a (by simp)⟩, ?_⟩
  rw [Multiset.coe_eq_coe.mpr hp]
  simp only [← Multiset.coe_add, ← Multiset.cons_coe, ← Multiset.singleton_add]
  abel

lemma Fires.forall_acc (h : Fires next s t) (ha : ∀ a ∈ s, Acc (Succeeds next) a) :
    ∀ b ∈ t, Acc (Succeeds next) b := by
  obtain ⟨pre, a, post, rfl, hp⟩ := h
  intro b hb
  rcases List.mem_append.mp (hp.mem_iff.mp hb) with hb | hb
  · exact (ha a (by simp)).inv hb
  · refine ha b ?_
    simp only [List.mem_append, List.mem_cons] at hb ⊢
    tauto

theorem dies_iff : Dies next s ↔ ∀ a ∈ s, Acc (Succeeds next) a := by
  constructor
  · intro h
    induction h with
    | intro s _ ih =>
      intro a ha
      obtain ⟨pre, post, rfl⟩ := List.append_of_mem ha
      refine ⟨a, fun b hb => ?_⟩
      exact ih (next a ++ (pre ++ post)) ⟨pre, a, post, rfl, .refl _⟩ b (List.mem_append_left _ hb)
  · intro h
    let r : α → α → Prop := fun b a => Succeeds next b a ∧ Acc (Succeeds next) a
    have hirrefl : Std.Irrefl r := ⟨fun a ⟨hs, ha⟩ => not_rel_self_of_acc ha hs⟩
    have hacc : Acc (CutExpand r) (↑s : Multiset α) := acc_of_singleton fun a ha =>
      (Subrelation.accessible (fun h => h.1) (h a ha) : Acc r a).cutExpand
    obtain ⟨S, hS⟩ : ∃ S : Multiset α, S = ↑s := ⟨_, rfl⟩
    rw [← hS] at hacc
    induction hacc generalizing s with
    | intro S _ ih =>
      subst hS
      exact ⟨s, fun t ht => ih _ (fires_cutExpand h ht) (ht.forall_acc h) rfl⟩

theorem acc_succeeds_iff [Finite α] :
    Acc (Succeeds next) a ↔ ∀ b, ReflTransGen (Succeeds next) b a → ¬TransGen (Succeeds next) b b := by
  constructor
  · intro h b hb hloop
    have hacc : Acc (Succeeds next) b := by
      clear hloop
      induction hb using ReflTransGen.head_induction_on with
      | refl => exact h
      | head hc _ ih => exact ih.inv hc
    exact not_rel_self_of_acc hacc.transGen hloop
  · intro h
    let q : α → α → Prop := fun c b => TransGen (Succeeds next) c b ∧ ReflTransGen (Succeeds next) b a
    have htrans : IsTrans α q := ⟨fun _ _ _ h₁ h₂ => ⟨h₁.1.trans h₂.1, h₂.2⟩⟩
    have hirrefl : Std.Irrefl q := ⟨fun b hb => h b hb.2 hb.1⟩
    have hwf : WellFounded q := Finite.wellFounded_of_trans_of_irrefl q
    suffices hd : ∀ b, ReflTransGen (Succeeds next) b a → Acc (Succeeds next) b from hd a .refl
    intro b
    induction b using hwf.induction with
    | _ b ih =>
      intro hb
      exact ⟨b, fun c hc => ih c ⟨.single hc, hb⟩ (.head hc hb)⟩

end CourseArchive.Lib
