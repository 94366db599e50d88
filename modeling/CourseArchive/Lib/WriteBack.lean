import Mathlib.Tactic

/-! Write-back caching of a memory: a set of lines over a memory stands for one flat memory. -/

namespace CourseArchive.Lib

open Function

structure Line (κ ν : Type) where
  key : κ
  value : ν
  valid : Bool
  dirty : Bool

variable {ι κ ν : Type}

def Line.Holds (l : Line κ ν) (k : κ) : Prop := l.valid = true ∧ l.key = k

structure Represents (mem : κ → ν) (line : ι → Line κ ν) (flat : κ → ν) : Prop where
  unique : ∀ {i j k}, (line i).Holds k → (line j).Holds k → i = j
  held : ∀ {i k}, (line i).Holds k → (line i).value = flat k
  unheld : ∀ {k}, (∀ i, ¬ (line i).Holds k) → mem k = flat k
  clean : ∀ {i k}, (line i).Holds k → (line i).dirty = false → mem k = flat k

def UniqueLines (line : ι → Line κ ν) : Prop := ∀ ⦃i j k⦄, (line i).Holds k → (line j).Holds k → i = j

structure Shows (mem : κ → ν) (line : ι → Line κ ν) (k : κ) (P : ν → Prop) : Prop where
  held : ∀ {i}, (line i).Holds k → P (line i).value
  unheld : (∀ i, ¬ (line i).Holds k) → P (mem k)
  clean : ∀ {i}, (line i).Holds k → (line i).dirty = false → P (mem k)

section Updates

variable [DecidableEq ι] {line : ι → Line κ ν} {i j : ι} {k : κ} {l : Line κ ν}

lemma holds_update_of_ne (h : j ≠ i) : (update line i l j).Holds k ↔ (line j).Holds k := by rw [update_of_ne h]

lemma holds_update_same (hv : l.valid = (line i).valid) (hk : l.key = (line i).key) :
    (update line i l j).Holds k ↔ (line j).Holds k := by
  by_cases he : j = i
  · subst he
    simp [Line.Holds, hv, hk]
  · exact holds_update_of_ne he

lemma holds_store {v : ν} :
    (update line i { line i with value := v, dirty := true } j).Holds k ↔ (line j).Holds k :=
  holds_update_same rfl rfl

lemma UniqueLines.store (h : UniqueLines line) (i : ι) (v : ν) :
    UniqueLines (update line i { line i with value := v, dirty := true }) :=
  fun _ _ _ hj hj' => h (holds_store.mp hj) (holds_store.mp hj')

lemma UniqueLines.sub (h : UniqueLines line) (hl : ∀ {k}, l.Holds k → (line i).Holds k) :
    UniqueLines (update line i l) := by
  have hsub : ∀ {j k}, (update line i l j).Holds k → (line j).Holds k := by
    intro j k hj
    by_cases he : j = i
    · subst he
      rw [update_self] at hj
      exact hl hj
    · exact (holds_update_of_ne he).mp hj
  exact fun _ _ _ hj hj' => h (hsub hj) (hsub hj')

lemma UniqueLines.load (h : UniqueLines line) (hk : ∀ j, ¬ (line j).Holds k) (hl : l.key = k) :
    UniqueLines (update line i l) := by
  have hkey : ∀ {k'}, (update line i l i).Holds k' → k = k' := by
    intro k' hi
    rw [update_self] at hi
    exact hl.symm.trans hi.2
  intro a b k' ha hb
  by_cases hai : a = i
  · subst hai
    by_cases hba : b = a
    · exact hba.symm
    · obtain rfl := hkey ha
      exact absurd ((holds_update_of_ne hba).mp hb) (hk b)
  · by_cases hbi : b = i
    · subst hbi
      obtain rfl := hkey hb
      exact absurd ((holds_update_of_ne hai).mp ha) (hk a)
    · exact h ((holds_update_of_ne hai).mp ha) ((holds_update_of_ne hbi).mp hb)

end Updates

namespace Shows

variable {mem mem' : κ → ν} {line : ι → Line κ ν} {i : ι} {k k' : κ} {P Q : ν → Prop}

lemma trivial (mem : κ → ν) (line : ι → Line κ ν) (k : κ) : Shows mem line k fun _ => True :=
  ⟨fun _ => True.intro, fun _ => True.intro, fun _ _ => True.intro⟩

lemma congr_mem (h : Shows mem line k P) (hm : mem' k = mem k) : Shows mem' line k P :=
  ⟨h.held, fun hn => hm ▸ h.unheld hn, fun hi hd => hm ▸ h.clean hi hd⟩

lemma write_back [DecidableEq κ] (h : Shows mem line k P) (hi : (line i).Holds k') :
    Shows (update mem k' (line i).value) line k P := by
  by_cases he : k = k'
  · subst he
    exact ⟨h.held, fun hn => absurd hi (hn i), fun _ _ => by rw [update_self]; exact h.held hi⟩
  · exact h.congr_mem (update_of_ne he _ _)

section Lines

variable [DecidableEq ι]

lemma settle (h : Shows mem line k P) (hm : (line i).Holds k → P (mem k)) {l : Line κ ν}
    (hl : l.Holds k → (line i).Holds k) (hv : l.value = (line i).value) : Shows mem (update line i l) k P := by
  -- the line `i` gives up what it holds, or part of it, once the memory has it
  refine ⟨fun {j} hj => ?_, fun hn => ?_, fun {j} hj hd => ?_⟩
  · by_cases he : j = i
    · subst he
      rw [update_self] at hj ⊢
      rw [hv]
      exact h.held (hl hj)
    · rw [update_of_ne he] at hj ⊢
      exact h.held hj
  · by_cases hi : (line i).Holds k
    · exact hm hi
    · refine h.unheld fun j hj => ?_
      by_cases he : j = i
      · subst he
        exact hi hj
      · exact hn j ((holds_update_of_ne he).mpr hj)
  · by_cases he : j = i
    · subst he
      rw [update_self] at hj
      exact hm (hl hj)
    · rw [update_of_ne he] at hj hd
      exact h.clean hj hd

lemma load (h : Shows mem line k P) (hm : (line i).Holds k → P (mem k)) (hk : ∀ j, ¬ (line j).Holds k') :
    Shows mem (update line i ⟨k', mem k', true, false⟩) k P := by
  have hself : (update line i ⟨k', mem k', true, false⟩ i).Holds k → k' = k := by
    rw [update_self]
    exact And.right
  refine ⟨fun {j} hj => ?_, fun hn => ?_, fun {j} hj hd => ?_⟩
  · by_cases he : j = i
    · subst he
      obtain rfl := hself hj
      rw [update_self]
      exact h.unheld hk
    · rw [update_of_ne he] at hj ⊢
      exact h.held hj
  · by_cases hi : (line i).Holds k
    · exact hm hi
    · refine h.unheld fun j hj => ?_
      by_cases he : j = i
      · subst he
        exact hi hj
      · exact hn j ((holds_update_of_ne he).mpr hj)
  · by_cases he : j = i
    · subst he
      obtain rfl := hself hj
      exact h.unheld hk
    · rw [update_of_ne he] at hj hd
      exact h.clean hj hd

lemma store (h : Shows mem line k P) (hu : UniqueLines line) (hi : (line i).Holds k) {v : ν}
    (hv : P (line i).value → Q v) : Shows mem (update line i { line i with value := v, dirty := true }) k Q := by
  have honly : ∀ {j}, (update line i { line i with value := v, dirty := true } j).Holds k → j = i :=
    fun hj => hu (holds_store.mp hj) hi
  refine ⟨fun {j} hj => ?_, fun hn => absurd (holds_store.mpr hi) (hn i), fun {j} hj hd => ?_⟩
  · obtain rfl := honly hj
    rw [update_self]
    exact hv (h.held hi)
  · obtain rfl := honly hj
    rw [update_self] at hd
    cases hd

lemma store_of_ne (h : Shows mem line k P) (hi : (line i).Holds k') (hne : k ≠ k') (v : ν) :
    Shows mem (update line i { line i with value := v, dirty := true }) k P := by
  have hne' : ∀ {j}, (line j).Holds k → j ≠ i := by
    rintro j hj rfl
    exact hne (hj.2.symm.trans hi.2)
  refine ⟨fun {j} hj => ?_, fun hn => h.unheld fun j hj => hn j (holds_store.mpr hj), fun {j} hj hd => ?_⟩
  · have hj' := holds_store.mp hj
    rw [update_of_ne (hne' hj')]
    exact h.held hj'
  · have hj' := holds_store.mp hj
    rw [update_of_ne (hne' hj')] at hd
    exact h.clean hj' hd

end Lines

end Shows

lemma represents_iff {mem flat : κ → ν} {line : ι → Line κ ν} :
    Represents mem line flat ↔ UniqueLines line ∧ ∀ k, Shows mem line k (· = flat k) :=
  ⟨fun h => ⟨fun _ _ _ => h.unique, fun _ => ⟨h.held, h.unheld, h.clean⟩⟩,
    fun h => ⟨fun hi hj => h.1 hi hj, fun hi => (h.2 _).held hi, fun hn => (h.2 _).unheld hn,
      fun hi hd => (h.2 _).clean hi hd⟩⟩

namespace Represents

variable {mem flat : κ → ν} {line : ι → Line κ ν}

lemma shows (h : Represents mem line flat) (k : κ) : Shows mem line k (· = flat k) := (represents_iff.mp h).2 k

lemma mem_eq (h : Represents mem line flat) (hc : ∀ i k, (line i).Holds k → (line i).dirty = false) :
    mem = flat := by
  funext k
  by_cases hk : ∃ i, (line i).Holds k
  · obtain ⟨i, hi⟩ := hk
    exact h.clean hi (hc i k hi)
  · exact h.unheld fun i hi => hk ⟨i, hi⟩

section Lines

variable [DecidableEq ι]

lemma settle (h : Represents mem line flat) {i : ι} (hm : ∀ k, (line i).Holds k → mem k = flat k) (b : Bool) :
    Represents mem (update line i { line i with valid := (line i).valid && b, dirty := false }) flat := by
  have hl : ∀ {k}, Line.Holds { line i with valid := (line i).valid && b, dirty := false } k →
      (line i).Holds k := by
    rintro k ⟨hv, hk⟩
    rw [Bool.and_eq_true] at hv
    exact ⟨hv.1, hk⟩
  exact represents_iff.mpr ⟨UniqueLines.sub (fun _ _ _ => h.unique) hl, fun k => (h.shows k).settle (hm k) hl rfl⟩

lemma load (h : Represents mem line flat) {i : ι} (hm : ∀ k, (line i).Holds k → mem k = flat k)
    {k : κ} (hk : ∀ j, ¬ (line j).Holds k) :
    Represents mem (update line i ⟨k, mem k, true, false⟩) flat :=
  represents_iff.mpr ⟨UniqueLines.load (fun _ _ _ => h.unique) hk rfl, fun k' => (h.shows k').load (hm k') hk⟩

end Lines

variable [DecidableEq κ]

lemma write_back (h : Represents mem line flat) {i : ι} {k : κ} (hi : (line i).Holds k) :
    Represents (update mem k (line i).value) line flat :=
  represents_iff.mpr ⟨fun _ _ _ => h.unique, fun k' => (h.shows k').write_back hi⟩

variable [DecidableEq ι]

lemma store (h : Represents mem line flat) {i : ι} {k : κ} (hi : (line i).Holds k) (v : ν) :
    Represents mem (update line i { line i with value := v, dirty := true }) (update flat k v) := by
  refine represents_iff.mpr ⟨UniqueLines.store (fun _ _ _ => h.unique) i v, fun k' => ?_⟩
  by_cases he : k' = k
  · subst he
    exact (h.shows k').store (fun _ _ _ => h.unique) hi fun _ => by rw [update_self]
  · rw [update_of_ne he]
    exact (h.shows k').store_of_ne hi he v

end Represents

end CourseArchive.Lib
