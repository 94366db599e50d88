import Mathlib.Data.Fintype.Card
import Mathlib.Tactic

/-! Threads that call the procedures of a monitor and wait on its condition variables. -/

namespace CourseArchive.Lib

/-- A thread that is ready competes for the lock of the monitor and tests the condition of its call anew. -/
inductive Place (Call : Type*)
  | outside
  | ready (call : Call)
  | waiting (call : Call)
  deriving DecidableEq

variable {T Call Cond : Type*} [DecidableEq T] [DecidableEq Cond] (cond : Call → Cond) {c : Cond} {n : ℕ}
  {threads : T → Place Call} {t : T} {call : Call} {woken : Finset T}

namespace Place

def readyOn (c : Cond) : Place Call → Bool
  | ready call => cond call == c
  | _ => false

def waitsOn (c : Cond) : Place Call → Bool
  | waiting call => cond call == c
  | _ => false

def awake : Place Call → Place Call
  | waiting call => ready call
  | place => place

variable {cond}

lemma waitsOn_awake (place : Place Call) : place.awake.waitsOn cond c = false := by
  cases place <;> rfl

lemma readyOn_awake (place : Place Call) :
    place.awake.readyOn cond c = (place.readyOn cond c || place.waitsOn cond c) := by
  cases place <;> simp [awake, readyOn, waitsOn]

lemma waitsOn_unique {place : Place Call} {c' : Cond} (h : place.waitsOn cond c) (h' : place.waitsOn cond c') :
    c = c' := by
  cases place <;> simp_all [waitsOn]

lemma not_readyOn_of_waitsOn {place : Place Call} {c' : Cond} (h : place.waitsOn cond c) :
    place.readyOn cond c' = false := by
  cases place <;> simp_all [waitsOn, readyOn]

end Place

def wake (threads : T → Place Call) (woken : Finset T) (t : T) : Place Call :=
  if t ∈ woken then (threads t).awake else threads t

variable [Fintype T]

def readyOn (c : Cond) (threads : T → Place Call) : Finset T :=
  Finset.univ.filter fun t => (threads t).readyOn cond c

def waitingOn (c : Cond) (threads : T → Place Call) : Finset T :=
  Finset.univ.filter fun t => (threads t).waitsOn cond c

def Signals (c : Cond) (threads : T → Place Call) (woken : Finset T) : Prop :=
  woken ⊆ waitingOn cond c threads ∧ ((waitingOn cond c threads).Nonempty → woken.Nonempty)

instance : Decidable (Signals cond c threads woken) := inferInstanceAs (Decidable (_ ∧ _))

def Enough (c : Cond) (threads : T → Place Call) (n : ℕ) : Prop :=
  (waitingOn cond c threads).Nonempty → n ≤ (readyOn cond c threads).card

variable {cond}

omit [DecidableEq T] in
@[simp] lemma mem_readyOn : t ∈ readyOn cond c threads ↔ (threads t).readyOn cond c := by
  simp [readyOn]

omit [DecidableEq T] in
@[simp] lemma mem_waitingOn : t ∈ waitingOn cond c threads ↔ (threads t).waitsOn cond c := by
  simp [waitingOn]

lemma mem_waitingOn_of_wake (h : t ∈ waitingOn cond c (wake threads woken)) : t ∈ waitingOn cond c threads := by
  rw [mem_waitingOn, wake] at h
  split_ifs at h with hmem
  · rw [Place.waitsOn_awake] at h
    exact absurd h (by simp)
  · simpa using h

omit [DecidableEq T] in
lemma signals_all : Signals cond c threads (waitingOn cond c threads) := ⟨subset_rfl, id⟩

namespace Enough

omit [DecidableEq T] in
lemma exists_ready (h : Enough cond c threads n) (hn : 0 < n) (hw : threads t = .waiting call)
    (hc : cond call = c) :
    ∃ u call', threads u = .ready call' ∧ cond call' = c := by
  have ht : t ∈ waitingOn cond c threads := by simp [hw, Place.waitsOn, hc]
  obtain ⟨u, hu⟩ := Finset.card_pos.mp (hn.trans_le (h ⟨t, ht⟩))
  rw [mem_readyOn] at hu
  cases hp : threads u with
  | outside => simp [hp, Place.readyOn] at hu
  | waiting => simp [hp, Place.readyOn] at hu
  | ready call' => exact ⟨u, call', hp, by simpa [hp, Place.readyOn] using hu⟩

lemma become_ready (h : Enough cond c threads n) (ht : ∀ call', threads t ≠ .ready call') (call : Call) :
    Enough cond c (Function.update threads t (.ready call)) n := by
  -- a thread that becomes ready, be it by a call or by a spurious wake-up, does no harm
  rintro ⟨u, hu⟩
  have hne : u ≠ t := by
    rintro rfl
    simp [Place.waitsOn] at hu
  refine (h ⟨u, by simpa [hne] using hu⟩).trans (Finset.card_le_card fun v hv => ?_)
  have hvt : v ≠ t := by
    rintro rfl
    rw [mem_readyOn] at hv
    cases hp : threads v with
    | ready call' => exact ht call' hp
    | outside => simp [hp, Place.readyOn] at hv
    | waiting => simp [hp, Place.readyOn] at hv
  simpa [hvt] using hv

lemma leave (h : Enough cond c threads (n + 1)) (place : Place Call) (hp : ¬ place.waitsOn cond c) :
    Enough cond c (Function.update threads t place) n := by
  rintro ⟨u, hu⟩
  have hne : u ≠ t := by
    rintro rfl
    simp_all
  have hle := h ⟨u, by simpa [hne] using hu⟩
  have hsub : (readyOn cond c threads).erase t ⊆ readyOn cond c (Function.update threads t place) := by
    intro v hv
    obtain ⟨hvt, hv⟩ := Finset.mem_erase.mp hv
    simpa [hvt] using hv
  have := Finset.card_le_card hsub
  have := Finset.pred_card_le_card_erase (s := readyOn cond c threads) (a := t)
  omega

lemma elsewhere (h : Enough cond c threads n) (ht : threads t = .ready call) (hc : cond call ≠ c)
    (place : Place Call) (hp : ¬ place.waitsOn cond c) : Enough cond c (Function.update threads t place) n := by
  rintro ⟨u, hu⟩
  have hne : u ≠ t := by
    rintro rfl
    simp_all
  refine (h ⟨u, by simpa [hne] using hu⟩).trans (Finset.card_le_card fun v hv => ?_)
  have hvt : v ≠ t := by
    rintro rfl
    simp [ht, Place.readyOn, hc] at hv
  simpa [hvt] using hv

omit [DecidableEq T] in
lemma none_left : Enough cond c threads 0 := fun _ => Nat.zero_le _

lemma signal (h : Enough cond c threads n) (hs : Signals cond c threads woken) :
    Enough cond c (wake threads woken) (n + 1) := by
  rintro ⟨u, hu⟩
  have hu' := mem_waitingOn_of_wake hu
  have hsub : readyOn cond c threads ∪ woken ⊆ readyOn cond c (wake threads woken) := by
    intro v hv
    rw [mem_readyOn, wake]
    rcases Finset.mem_union.mp hv with hv | hv
    · split_ifs
      · simp [Place.readyOn_awake, mem_readyOn.mp hv]
      · exact mem_readyOn.mp hv
    · simp [hv, Place.readyOn_awake, mem_waitingOn.mp (hs.1 hv)]
  have hdisj : Disjoint (readyOn cond c threads) woken := by
    refine Finset.disjoint_left.mpr fun v hv hw => ?_
    simp [Place.not_readyOn_of_waitsOn (mem_waitingOn.mp (hs.1 hw))] at hv
  have hcard := Finset.card_le_card hsub
  rw [Finset.card_union_of_disjoint hdisj] at hcard
  have hpos := Finset.card_pos.mpr (hs.2 ⟨u, hu'⟩)
  have := h ⟨u, hu'⟩
  omega

lemma signal_other (h : Enough cond c threads n) {c' : Cond} (hs : Signals cond c' threads woken) (hne : c ≠ c') :
    Enough cond c (wake threads woken) n := by
  have hsame : ∀ v ∈ woken, (threads v).waitsOn cond c = false := fun v hv =>
    Bool.eq_false_iff.mpr fun hw => hne (Place.waitsOn_unique hw (mem_waitingOn.mp (hs.1 hv)))
  rintro ⟨u, hu⟩
  have hu' := mem_waitingOn_of_wake hu
  refine (h ⟨u, hu'⟩).trans (Finset.card_le_card fun v hv => ?_)
  rw [mem_readyOn, wake]
  split_ifs
  · simp [Place.readyOn_awake, mem_readyOn.mp hv]
  · exact mem_readyOn.mp hv

end Enough

end CourseArchive.Lib
