import CourseArchive.PintOS.Userprog.Lifetime

/-! The exit status handed from a child to its parent by `userprog/process.c`. -/

namespace CourseArchive.PintOS

open Lib

def ParentPc.inits (i : ℕ) : ParentPc → ℕ
  | initExited j => if i = j then 0 else 4
  | initOrphan j => if i = j then 1 else 4
  | initExitStatus j => if i = j then 2 else 4
  | initWaitExitSema j => if i = j then 3 else 4
  | _ => 4

def timelyChild (s : Family) (i : ℕ) : ChildPc → Bool
  | .storeExitStatus _ => 3 ≤ s.parent.inits i
  | .setExited _ => 1 ≤ s.parent.inits i
  | .upWaitExitSema _ => 4 ≤ s.parent.inits i
  | _ => true

/-- A child stores its exit status, sets `exited` and ups `wait_exit_sema` only after its parent has initialised
the member in question. -/
def timely (s : Family) : Move → Bool
  | .child i _ => timelyChild s i (s.child i)
  | _ => true

def Timely (s : Family) (m : Move) : Prop := timely s m = true

instance (s : Family) (m : Move) : Decidable (Timely s m) := inferInstanceAs (Decidable (_ = true))

namespace ChildPc

def status : ChildPc → Option ℤ
  | setExited status | upWaitExitSema status | testOrphan status | freeOwn status | done status => status
  | _ => none

def stored (c : ChildPc) : ℤ := c.status.getD (-1)

def hasExited : ChildPc → Bool
  | upWaitExitSema _ | testOrphan _ | freeOwn _ | done _ => true
  | _ => false

def hasUpped : ChildPc → Bool
  | testOrphan _ | freeOwn _ | done _ => true
  | _ => false

lemma hasExited_of_hasUpped {c : ChildPc} (h : c.hasUpped = true) : c.hasExited = true := by
  cases c <;> first | rfl | cases h

end ChildPc

def ParentPc.downed (i : ℕ) : ParentPc → Bool
  | retestExited _ j | takeStatus _ j | remove _ j _ | freeWaited _ j _ => i = j
  | _ => false

def waitsFor (tid : ℤ) : List Event → List ℤ
  | [] => []
  | .waited childTid exitStatus :: log =>
    if childTid = tid then exitStatus :: waitsFor tid log else waitsFor tid log
  | .executed _ :: log => waitsFor tid log

def waitsAfter (tid : ℤ) : List Event → List ℤ
  | [] => []
  | .executed t :: log => if t = tid then waitsFor tid log else waitsAfter tid log
  | .waited .. :: log => waitsAfter tid log

structure Faithful (i : ℕ) (pc : ParentPc) (info : ThreadAdditionalInfo) (c : ChildPc) : Prop where
  exited : 1 ≤ pc.inits i → info.exited = c.hasExited
  orphan : 2 ≤ pc.inits i → info.orphan = false
  exitStatus : 3 ≤ pc.inits i → info.exitStatus = c.stored
  sema : 4 ≤ pc.inits i → pc.downed i = false → info.waitExitSema = if c.hasUpped then 1 else 0

def Knows (s : Family) : ParentPc → Prop
  | .pushBack i => (s.infos i).tid = i
  | .search childTid it => ∃ pre, s.children = pre ++ it ∧ ∀ j ∈ pre, (j : ℤ) ≠ childTid
  | .searchNext childTid i it => ∃ pre, s.children = pre ++ i :: it ∧ (∀ j ∈ pre, (j : ℤ) ≠ childTid) ∧
    (i : ℤ) ≠ childTid
  | .testExited childTid i | .downWaitExitSema childTid i => i ∈ s.children ∧ childTid = i
  | .retestExited childTid i | .takeStatus childTid i => i ∈ s.children ∧ childTid = i ∧
    (s.child i).hasExited = true
  | .remove childTid i status => i ∈ s.children ∧ childTid = i ∧ (s.child i).hasExited = true ∧
    status = (s.child i).stored
  | .freeWaited childTid i status => childTid = i ∧ (s.child i).hasExited = true ∧ status = (s.child i).stored
  | _ => True

/-- The invariant. Once the parent is in `process_exit`, only what it has returned before still counts. -/
structure Handover (s : Family) : Prop where
  tids : s.parent.leaving = false → ∀ i, s.slots i = .live → (s.infos i).tid = -1 ∨ (s.infos i).tid = i
  faithful : s.parent.leaving = false → ∀ i, s.slots i = .live → s.child i ≠ .absent →
    Faithful i s.parent (s.infos i) (s.child i)
  early : ∀ i, (s.parent.inits i = 0 → (s.child i).hasExited = false) ∧
    (s.parent.inits i ≤ 2 → (s.child i).status = none) ∧ (s.parent.inits i ≤ 3 → (s.child i).hasUpped = false)
  listed : s.parent.leaving = false → ∀ i ∈ s.children, s.slots i = .live ∧ s.child i ≠ .absent ∧
    (s.infos i).tid = i
  own : ∀ i ∈ s.parent.own, s.slots i = .live ∧ i ∉ s.children
  unborn : ∀ i ∈ s.parent.unborn, s.child i = .absent
  born : ∀ i ∈ s.parent.own, i ∉ s.parent.unborn → s.child i ≠ .absent
  nodup : s.children.Nodup
  unfreed : s.parent.leaving = false → ∀ i st, s.child i = .freeOwn st → s.slots i ≠ .live
  unused : ∀ i, s.slots i = .unused → s.child i = .absent
  knows : Knows s s.parent
  executed : ∀ i : ℕ, .executed i ∈ s.log → s.slots i ≠ .unused
  owned : ∀ i : ℕ, .executed i ∈ s.log → i ∈ s.parent.own → ∃ childTid status,
    s.parent = .freeWaited childTid i status
  waits : ∀ i : ℕ, .executed i ∈ s.log →
    ((i ∈ s.children ∨ i ∈ s.parent.own) ∧ waitsAfter i s.log = []) ∨
    (i ∉ s.children ∧ i ∉ s.parent.own ∧ (s.child i).hasExited = true ∧
      ∃ n, waitsAfter i s.log = (s.child i).stored :: List.replicate n (-1))

lemma waitsFor_append (tid : ℤ) (xs ys : List Event) :
    waitsFor tid (xs ++ ys) = waitsFor tid xs ++ waitsFor tid ys := by
  induction xs with
  | nil => rfl
  | cons x xs ih =>
    cases x with
    | waited childTid exitStatus =>
      simp only [List.cons_append, waitsFor, ih]
      split <;> rfl
    | executed t => simpa only [List.cons_append, waitsFor] using ih

lemma waitsAfter_append {tid : ℤ} {log : List Event} (h : .executed tid ∈ log) (ys : List Event) :
    waitsAfter tid (log ++ ys) = waitsAfter tid log ++ waitsFor tid ys := by
  induction log with
  | nil => simp at h
  | cons x log ih =>
    cases x with
    | waited childTid exitStatus => exact ih (by simpa using h)
    | executed t =>
      simp only [List.cons_append, waitsAfter]
      split
      · exact waitsFor_append ..
      · next hne => exact ih (by simpa [Ne.symm hne] using h)

lemma waitsAfter_executed {tid : ℤ} {log : List Event} (h : .executed tid ∉ log) :
    waitsAfter tid (log ++ [.executed tid]) = [] := by
  induction log with
  | nil => simp [waitsAfter, waitsFor]
  | cons x log ih =>
    cases x with
    | waited childTid exitStatus => exact ih (by simpa using h)
    | executed t =>
      simp only [List.mem_cons, Event.executed.injEq, not_or] at h
      simp only [List.cons_append, waitsAfter, if_neg (Ne.symm h.1), ih h.2]

namespace Handover

variable {s : Family}

lemma exits (h : Handover s) (infos : ℕ → ThreadAdditionalInfo) (slots : ℕ → Slot) (pc : ParentPc)
    (misuse : List Misuse) (hpc : pc.leaving = true) (hown : s.parent.own = none)
    (hslots : ∀ i, slots i = .unused ↔ s.slots i = .unused) :
    Handover { s with infos := infos, slots := slots, parent := pc, misuse := misuse } where
  tids hl := absurd hpc (by simp [hl])
  faithful hl := absurd hpc (by simp [hl])
  early i := by cases pc <;> simp [ParentPc.leaving, ParentPc.inits] at hpc ⊢
  listed hl := absurd hpc (by simp [hl])
  own i hi := by cases pc <;> simp [ParentPc.leaving, ParentPc.own] at hpc hi
  unborn i hi := by cases pc <;> simp [ParentPc.leaving, ParentPc.unborn] at hpc hi
  born i hi := by cases pc <;> simp [ParentPc.leaving, ParentPc.own] at hpc hi
  nodup := h.nodup
  unfreed hl := absurd hpc (by simp [hl])
  unused i hi := h.unused i ((hslots i).mp hi)
  knows := by cases pc <;> simp [ParentPc.leaving, Knows] at hpc ⊢
  executed i hi hu := h.executed i hi ((hslots i).mp hu)
  owned i _ hi := by cases pc <;> simp [ParentPc.leaving, ParentPc.own] at hpc hi
  waits i hi := by
    have hnone : i ∉ pc.own := by cases pc <;> simp [ParentPc.leaving, ParentPc.own] at hpc ⊢
    rcases h.waits i hi with ⟨hm, he⟩ | ⟨hm, -, hx⟩
    · rw [hown] at hm
      exact Or.inl ⟨Or.inl (hm.resolve_right (by simp)), he⟩
    · exact Or.inr ⟨hm, hnone, hx⟩

lemma goto (h : Handover s) (infos : ℕ → ThreadAdditionalInfo) (pc : ParentPc) (hon : s.parent.Onward pc)
    (hborn : s.parent.unborn = none) (hinits : ∀ i, s.parent.inits i ≤ pc.inits i)
    (hfw : ∀ childTid i status, s.parent ≠ .freeWaited childTid i status)
    (htid : ∀ i, (infos i).tid = (s.infos i).tid)
    (hfaithful : ∀ i, s.slots i = .live → s.child i ≠ .absent → Faithful i s.parent (s.infos i) (s.child i) →
      Faithful i pc (infos i) (s.child i))
    (hknows : Knows { s with infos := infos, parent := pc } pc) :
    Handover { s with infos := infos, parent := pc } := by
  have hl : pc.leaving = false → s.parent.leaving = false := by
    intro hp
    cases hs : s.parent.leaving
    · rfl
    · exact absurd (hon.2.2.1 hs) (by simp [hp])
  have hnew : ∀ i : ℕ, .executed i ∈ s.log → i ∉ s.parent.own := by
    intro i hi ho
    obtain ⟨childTid, status, hp⟩ := h.owned i hi ho
    exact hfw _ _ _ hp
  constructor
  case tids =>
    intro hp i hi
    simp only [htid]
    exact h.tids (hl hp) i hi
  case faithful => exact fun hp i hi hc => hfaithful i hi hc (h.faithful (hl hp) i hi hc)
  case early =>
    intro i
    obtain ⟨h₀, h₁, h₂⟩ := h.early i
    have := hinits i
    refine ⟨fun hp => h₀ ?_, fun hp => h₁ ?_, fun hp => h₂ ?_⟩ <;> simp only at hp <;> omega
  case listed =>
    intro hp i hi
    simp only [htid]
    exact h.listed (hl hp) i hi
  case own => exact fun i hi => h.own i (hon.1 i hi)
  case unborn => exact fun i hi => h.unborn i (hon.2.1 i hi)
  case born => exact fun i hi _ => h.born i (hon.1 i hi) (by simp [hborn])
  case nodup => exact h.nodup
  case unfreed => exact fun hp => h.unfreed (hl hp)
  case unused => exact h.unused
  case knows => exact hknows
  case executed => exact h.executed
  case owned => exact fun i hi ho => absurd (hon.1 i ho) (hnew i hi)
  case waits =>
    intro i hi
    have hni := hnew i hi
    rcases h.waits i hi with ⟨hm, he⟩ | ⟨hm, -, hx⟩
    · exact Or.inl ⟨Or.inl (hm.resolve_right hni), he⟩
    · exact Or.inr ⟨hm, fun ho => hni (hon.1 i ho), hx⟩

lemma waitFails (h : Handover s) {childTid : ℤ} (hp : s.parent = .search childTid []) :
    Handover { s with log := s.log ++ [.waited childTid (-1)], parent := .idle } := by
  have hn : ∀ i ∈ s.children, (i : ℤ) ≠ childTid := by
    have hk := h.knows
    rw [hp] at hk
    obtain ⟨pre, hpre, hne⟩ := hk
    rw [hpre, List.append_nil]
    exact hne
  have hl : s.parent.leaving = false := by
    rw [hp]
    rfl
  have hmem : ∀ i : ℕ, Event.executed i ∈ s.log ++ [Event.waited childTid (-1)] ↔
    .executed (i : ℤ) ∈ s.log := by simp
  constructor
  case tids => exact fun _ => h.tids hl
  case faithful =>
    intro _ i hi hc
    obtain ⟨hexited, horphan, hstatus, hsema⟩ := h.faithful hl i hi hc
    rw [hp] at hexited horphan hstatus hsema
    exact ⟨hexited, horphan, hstatus, hsema⟩
  case early => simp [ParentPc.inits]
  case listed => exact fun _ => h.listed hl
  case own => simp [ParentPc.own]
  case unborn => simp [ParentPc.unborn]
  case born => simp [ParentPc.own]
  case nodup => exact h.nodup
  case unfreed => exact fun _ => h.unfreed hl
  case unused => exact h.unused
  case knows => trivial
  case executed => exact fun i hi => h.executed i ((hmem i).mp hi)
  case owned => simp [ParentPc.own]
  case waits =>
    intro i hi
    have hi := (hmem i).mp hi
    rw [waitsAfter_append hi]
    rcases h.waits i hi with ⟨hm, he⟩ | ⟨hm, -, hx, n, he⟩
    · have hc : i ∈ s.children := hm.resolve_right (by simp [hp, ParentPc.own])
      refine Or.inl ⟨Or.inl hc, ?_⟩
      simp [he, waitsFor, (hn i hc).symm]
    · refine Or.inr ⟨hm, by simp [ParentPc.own], hx, ?_⟩
      by_cases hi : childTid = i
      · exact ⟨n + 1, by simp [he, waitsFor, hi, List.replicate_succ']⟩
      · exact ⟨n, by simp [he, waitsFor, hi]⟩

lemma release (h : Handover s) {i : ℕ} {e : Event} (hi : i ∈ s.parent.own) (hl : s.parent.leaving = false)
    (hdown : ∀ j, j ≠ i → s.parent.inits j = 4 ∧ s.parent.downed j = false)
    (he : (e = .executed (-1) ∧ ∀ childTid j status, s.parent ≠ .freeWaited childTid j status) ∨
      ∃ status, s.parent = .freeWaited i i status ∧ e = .waited i status) :
    Handover { s with slots := Function.update s.slots i .freed, log := s.log ++ [e], parent := .idle } := by
  have hni : ∀ j ∈ s.children, j ≠ i := by
    rintro j hj rfl
    exact (h.own j hi).2 hj
  have hmem : ∀ j : ℕ, .executed j ∈ s.log ++ [e] ↔ .executed (j : ℤ) ∈ s.log := by
    rcases he with ⟨rfl, -⟩ | ⟨status, -, rfl⟩ <;> simp
  constructor
  case tids =>
    intro _ j hj
    have hji : j ≠ i := by
      rintro rfl
      simp at hj
    exact h.tids hl j (by simpa only [Function.update_of_ne hji] using hj)
  case faithful =>
    intro _ j hj hc
    have hji : j ≠ i := by
      rintro rfl
      simp at hj
    simp only [Function.update_of_ne hji] at hj
    obtain ⟨hexited, horphan, hstatus, hsema⟩ := h.faithful hl j hj hc
    rw [(hdown j hji).1] at hexited horphan hstatus hsema
    exact ⟨hexited, horphan, hstatus, fun h₄ _ => hsema h₄ (hdown j hji).2⟩
  case early => simp [ParentPc.inits]
  case listed =>
    intro _ j hj
    simpa only [Function.update_of_ne (hni j hj)] using h.listed hl j hj
  case own => nofun
  case unborn => nofun
  case born => nofun
  case nodup => exact h.nodup
  case unfreed =>
    intro _ j st hj
    by_cases hji : j = i
    · simp [hji]
    · simpa only [Function.update_of_ne hji] using h.unfreed hl j st hj
  case unused =>
    intro j hj
    by_cases hji : j = i
    · simp [hji] at hj
    · exact h.unused j (by simpa only [Function.update_of_ne hji] using hj)
  case knows => trivial
  case executed =>
    intro j hj
    by_cases hji : j = i
    · simp [hji]
    · simpa only [Function.update_of_ne hji] using h.executed j ((hmem j).mp hj)
  case owned => nofun
  case waits =>
    intro j hj
    have hlog := (hmem j).mp hj
    rw [waitsAfter_append hlog]
    rcases he with ⟨rfl, hne⟩ | ⟨status, hp, rfl⟩
    · have hno : j ∉ s.parent.own := by
        intro ho
        obtain ⟨childTid, status, hp⟩ := h.owned j hlog ho
        exact hne _ _ _ hp
      rcases h.waits j hlog with ⟨hm, he⟩ | ⟨hm, -, hx⟩
      · exact Or.inl ⟨Or.inl (hm.resolve_right hno), by simpa [waitsFor] using he⟩
      · exact Or.inr ⟨hm, nofun, by simpa [waitsFor] using hx⟩
    · have hk := h.knows
      rw [hp] at hk
      obtain ⟨-, hexited, rfl⟩ := hk
      rcases h.waits j hlog with ⟨hm, he⟩ | ⟨hm, hno, hx⟩
      · by_cases hji : j = i
        · subst hji
          refine Or.inr ⟨fun hc => hni j hc rfl, nofun, hexited, 0, ?_⟩
          simp [he, waitsFor]
        · have hno : j ∉ s.parent.own := fun ho => hji (Option.some_injective _ (ho.symm.trans hi))
          exact Or.inl ⟨Or.inl (hm.resolve_right hno), by simp [he, waitsFor, Ne.symm hji]⟩
      · have hji : j ≠ i := by
          rintro rfl
          exact hno hi
        exact Or.inr ⟨hm, nofun, by simpa [waitsFor, Ne.symm hji] using hx⟩

lemma execute (h : Handover s) {i : ℕ} (info : ThreadAdditionalInfo) (hp : s.parent = .idle)
    (hi : s.slots i = .unused) (htid : info.tid = -1) :
    Handover { s with slots := Function.update s.slots i .live, infos := Function.update s.infos i info,
                      parent := .create i } := by
  have hl : s.parent.leaving = false := by
    rw [hp]
    rfl
  have hni : i ∉ s.children := by
    intro hc
    have := (h.listed hl i hc).1
    rw [hi] at this
    cases this
  have hold : ∀ j ∈ s.children, j ≠ i := by
    rintro j hj rfl
    exact hni hj
  have hlog : ∀ j : ℕ, .executed (j : ℤ) ∈ s.log → j ≠ i := by
    rintro j hj rfl
    exact h.executed j hj hi
  constructor
  case tids =>
    intro _ j hj
    by_cases hji : j = i
    · simp [hji, htid]
    · simp only [Function.update_of_ne hji] at hj ⊢
      exact h.tids hl j hj
  case faithful =>
    intro _ j hj hc
    have hji : j ≠ i := by
      rintro rfl
      exact hc (h.unused j hi)
    simp only [Function.update_of_ne hji] at hj
    obtain ⟨hexited, horphan, hstatus, hsema⟩ := h.faithful hl j hj hc
    rw [hp] at hexited horphan hstatus hsema
    constructor <;> simp only [Function.update_of_ne hji] <;> assumption
  case early => simp [ParentPc.inits]
  case listed =>
    intro _ j hj
    simpa only [Function.update_of_ne (hold j hj)] using h.listed hl j hj
  case own =>
    intro j hj
    obtain rfl : i = j := Option.some_injective _ hj
    exact ⟨Function.update_self .., hni⟩
  case unborn =>
    intro j hj
    obtain rfl : i = j := Option.some_injective _ hj
    exact h.unused i hi
  case born => exact fun j hj hn => absurd hj hn
  case nodup => exact h.nodup
  case unfreed =>
    intro _ j st hj
    have hji : j ≠ i := by
      rintro rfl
      rw [h.unused j hi] at hj
      cases hj
    simpa only [Function.update_of_ne hji] using h.unfreed hl j st hj
  case unused =>
    intro j hj
    by_cases hji : j = i
    · simp [hji] at hj
    · exact h.unused j (by simpa only [Function.update_of_ne hji] using hj)
  case knows => trivial
  case executed =>
    intro j hj
    simpa only [Function.update_of_ne (hlog j hj)] using h.executed j hj
  case owned =>
    intro j hj hi
    exact absurd (Option.some_injective _ hi).symm (hlog j hj)
  case waits =>
    intro j hj
    rcases h.waits j hj with ⟨hm, he⟩ | ⟨hm, -, hx⟩
    · exact Or.inl ⟨Or.inl (hm.resolve_right (by simp [hp, ParentPc.own])), he⟩
    · exact Or.inr ⟨hm, fun hi => hlog j hj (Option.some_injective _ hi).symm, hx⟩

lemma create (h : Handover s) {i : ℕ} (hp : s.parent = .create i) :
    Handover { s with parent := .initExited i, child := Function.update s.child i .loading } := by
  have hl : s.parent.leaving = false := by
    rw [hp]
    rfl
  obtain ⟨hi, hni⟩ := h.own i (by rw [hp]; rfl)
  have habsent : s.child i = .absent := h.unborn i (by rw [hp]; rfl)
  have hold : ∀ j ∈ s.children, j ≠ i := by
    rintro j hj rfl
    exact hni hj
  have hlog : ∀ j : ℕ, .executed (j : ℤ) ∈ s.log → j ≠ i := by
    rintro j hj rfl
    obtain ⟨childTid, status, hfw⟩ := h.owned j hj (by rw [hp]; rfl)
    rw [hp] at hfw
    cases hfw
  constructor
  case tids => exact fun _ => h.tids hl
  case faithful =>
    intro _ j hj hc
    by_cases hji : j = i
    · subst hji
      constructor <;> simp [ParentPc.inits]
    · simp only [Function.update_of_ne hji] at hc
      obtain ⟨hexited, horphan, hstatus, hsema⟩ := h.faithful hl j hj hc
      rw [hp] at hexited horphan hstatus hsema
      constructor <;> simp only [ParentPc.inits, if_neg hji, Function.update_of_ne hji] <;> assumption
  case early =>
    intro j
    by_cases hji : j = i
    · simp [hji, ChildPc.hasExited, ChildPc.status, ChildPc.hasUpped]
    · simp [hji, ParentPc.inits]
  case listed =>
    intro _ j hj
    simpa only [Function.update_of_ne (hold j hj)] using h.listed hl j hj
  case own =>
    intro j hj
    obtain rfl : i = j := Option.some_injective _ hj
    exact ⟨hi, hni⟩
  case unborn => nofun
  case born =>
    intro j hj _
    obtain rfl : i = j := Option.some_injective _ hj
    simp
  case nodup => exact h.nodup
  case unfreed =>
    intro _ j st hj
    by_cases hji : j = i
    · simp [hji] at hj
    · exact h.unfreed hl j st (by simpa only [Function.update_of_ne hji] using hj)
  case unused =>
    intro j hj
    by_cases hji : j = i
    · rw [hji, hi] at hj
      cases hj
    · simpa only [Function.update_of_ne hji] using h.unused j hj
  case knows => trivial
  case executed => exact h.executed
  case owned =>
    intro j hj hi
    exact absurd (Option.some_injective _ hi).symm (hlog j hj)
  case waits =>
    intro j hj
    have hji := hlog j hj
    rcases h.waits j hj with ⟨hm, he⟩ | ⟨hm, -, hx⟩
    · refine Or.inl ⟨Or.inl (hm.resolve_right fun ho => ?_), he⟩
      rw [hp] at ho
      exact hji (Option.some_injective _ ho).symm
    · refine Or.inr ⟨hm, fun hi => hji (Option.some_injective _ hi).symm, ?_⟩
      simpa only [Function.update_of_ne hji] using hx

lemma fails (h : Handover s) {i : ℕ} (hp : s.parent = .create i) :
    Handover { s with parent := .freeUncreated i } := by
  have hl : s.parent.leaving = false := by
    rw [hp]
    rfl
  obtain ⟨htids, hfaithful, hearly, hlisted, hown, hunborn, hborn, hnodup, hunfreed, hunused, -, hexecuted, howned,
    hwaits⟩ := h
  rw [hp] at hfaithful hown hunborn hborn howned hwaits
  refine ⟨fun _ => htids hl,
    fun _ j hj hc => ?_, by simp [ParentPc.inits], fun _ => hlisted hl, hown, hunborn, hborn,
    hnodup, fun _ => hunfreed hl, hunused, trivial, hexecuted, ?_, hwaits⟩
  · obtain ⟨hexited, horphan, hstatus, hsema⟩ := hfaithful rfl j hj hc
    exact ⟨hexited, horphan, hstatus, hsema⟩
  · intro j hj hi
    obtain ⟨_, _, hfw⟩ := howned j hj hi
    cases hfw

lemma pushBack (h : Handover s) {i : ℕ} (hp : s.parent = .pushBack i) :
    Handover { s with children := s.children ++ [i], log := s.log ++ [.executed i], parent := .idle } := by
  have hl : s.parent.leaving = false := by
    rw [hp]
    rfl
  obtain ⟨hi, hni⟩ := h.own i (by rw [hp]; rfl)
  have hborn : s.child i ≠ .absent := h.born i (by rw [hp]; rfl) (by rw [hp]; nofun)
  have htid : (s.infos i).tid = i := by
    have hk := h.knows
    rwa [hp] at hk
  have hnew : .executed (i : ℤ) ∉ s.log := by
    intro hlog
    obtain ⟨childTid, status, hfw⟩ := h.owned i hlog (by rw [hp]; rfl)
    rw [hp] at hfw
    cases hfw
  constructor
  case tids => exact fun _ => h.tids hl
  case faithful =>
    intro _ j hj hc
    obtain ⟨hexited, horphan, hstatus, hsema⟩ := h.faithful hl j hj hc
    rw [hp] at hexited horphan hstatus hsema
    exact ⟨hexited, horphan, hstatus, hsema⟩
  case early => simp [ParentPc.inits]
  case listed =>
    intro _ j hj
    rcases List.mem_append.mp hj with hj | hj
    · exact h.listed hl j hj
    · obtain rfl := List.mem_singleton.mp hj
      exact ⟨hi, hborn, htid⟩
  case own => nofun
  case unborn => nofun
  case born => nofun
  case nodup =>
    refine List.nodup_append'.mpr ⟨h.nodup, List.nodup_singleton i, ?_⟩
    rw [List.disjoint_singleton]
    exact hni
  case unfreed => exact fun _ => h.unfreed hl
  case unused => exact h.unused
  case knows => trivial
  case executed =>
    intro j hj
    rcases List.mem_append.mp hj with hj | hj
    · exact h.executed j hj
    · obtain rfl : j = i := by simpa using hj
      rw [hi]
      nofun
  case owned => nofun
  case waits =>
    intro j hj
    by_cases hji : j = i
    · subst hji
      exact Or.inl ⟨by simp, waitsAfter_executed hnew⟩
    · have hlog : .executed (j : ℤ) ∈ s.log := by simpa [hji] using hj
      rw [waitsAfter_append hlog]
      have hno : j ∉ s.parent.own := by
        rw [hp]
        exact fun ho => hji (Option.some_injective _ ho).symm
      rcases h.waits j hlog with ⟨hm, he⟩ | ⟨hm, -, hx⟩
      · exact Or.inl ⟨by simp [hm.resolve_right hno], by simpa [waitsFor] using he⟩
      · exact Or.inr ⟨by simp [hm, hji], nofun, by simpa [waitsFor] using hx⟩

lemma remove (h : Handover s) {childTid status : ℤ} {i : ℕ} (hp : s.parent = .remove childTid i status) :
    Handover { s with children := s.children.erase i, parent := .freeWaited childTid i status } := by
  have hl : s.parent.leaving = false := by
    rw [hp]
    rfl
  have hk := h.knows
  rw [hp] at hk
  obtain ⟨hmem, htid, hexited, hstatus⟩ := hk
  have hno : ∀ j, j ∉ s.parent.own := by
    rw [hp]
    nofun
  constructor
  case tids => exact fun _ => h.tids hl
  case faithful =>
    intro _ j hj hc
    obtain ⟨hexited, horphan, hstatus, hsema⟩ := h.faithful hl j hj hc
    rw [hp] at hexited horphan hstatus hsema
    exact ⟨hexited, horphan, hstatus, hsema⟩
  case early => simp [ParentPc.inits]
  case listed => exact fun _ j hj => h.listed hl j (List.mem_of_mem_erase hj)
  case own =>
    intro j hj
    obtain rfl : i = j := Option.some_injective _ hj
    exact ⟨(h.listed hl i hmem).1, h.nodup.not_mem_erase⟩
  case unborn => nofun
  case born =>
    intro j hj _
    obtain rfl : i = j := Option.some_injective _ hj
    exact (h.listed hl i hmem).2.1
  case nodup => exact h.nodup.erase i
  case unfreed => exact fun _ => h.unfreed hl
  case unused => exact h.unused
  case knows => exact ⟨htid, hexited, hstatus⟩
  case executed => exact h.executed
  case owned =>
    intro j _ hj
    obtain rfl : i = j := Option.some_injective _ hj
    exact ⟨childTid, status, rfl⟩
  case waits =>
    intro j hj
    rcases h.waits j hj with ⟨hm, he⟩ | ⟨hm, -, hx⟩
    · refine Or.inl ⟨?_, he⟩
      by_cases hji : j = i
      · exact Or.inr (by rw [hji]; rfl)
      · exact Or.inl ((List.mem_erase_of_ne hji).mpr (hm.resolve_right (hno j)))
    · refine Or.inr ⟨fun hc => hm (List.mem_of_mem_erase hc), ?_, hx⟩
      intro ho
      obtain rfl : i = j := Option.some_injective _ ho
      exact hm hmem

structure Follows (s : Family) (i : ℕ) (info : ThreadAdditionalInfo) (c : ChildPc) : Prop where
  used : s.slots i ≠ .unused
  born : s.child i ≠ .absent
  present : c ≠ .absent
  exited : (s.child i).hasExited = true → c.hasExited = true ∧ c.stored = (s.child i).stored
  tid : s.parent.leaving = false → info.tid = i ∨ info.tid = (s.infos i).tid
  early : (s.parent.inits i = 0 → c.hasExited = false) ∧ (s.parent.inits i ≤ 2 → c.status = none) ∧
    (s.parent.inits i ≤ 3 → c.hasUpped = false)
  faithful : s.parent.leaving = false → s.slots i = .live → Faithful i s.parent info c
  free : s.parent.leaving = false → ∀ st, c = .freeOwn st → s.slots i ≠ .live

section Child

variable {i j : ℕ} {info : ThreadAdditionalInfo} {c : ChildPc}

lemma tid_update (hf : Follows s i info c) (hl : s.parent.leaving = false) (j : ℕ) :
    (Function.update s.infos i info j).tid = (s.infos j).tid ∨
    (j = i ∧ (Function.update s.infos i info j).tid = i) := by
  by_cases hji : j = i
  · subst hji
    simp only [Function.update_self, true_and]
    exact (hf.tid hl).symm
  · exact Or.inl (by rw [Function.update_of_ne hji])

lemma exited_update (hf : Follows s i info c) (hj : (s.child j).hasExited = true) :
    (Function.update s.child i c j).hasExited = true ∧
    (Function.update s.child i c j).stored = (s.child j).stored := by
  by_cases hji : j = i
  · subst hji
    simpa only [Function.update_self] using hf.exited hj
  · rw [Function.update_of_ne hji]
    exact ⟨hj, rfl⟩

lemma present_update (hf : Follows s i info c) (hj : s.child j ≠ .absent) :
    Function.update s.child i c j ≠ .absent := by
  by_cases hji : j = i
  · simpa only [hji, Function.update_self] using hf.present
  · rwa [Function.update_of_ne hji]

lemma faithful_update (h : Handover s) (hf : Follows s i info c) (hl : s.parent.leaving = false)
    (hj : s.slots j = .live) (hc : Function.update s.child i c j ≠ .absent) :
    Faithful j s.parent (Function.update s.infos i info j) (Function.update s.child i c j) := by
  by_cases hji : j = i
  · subst hji
    simpa only [Function.update_self] using hf.faithful hl hj
  · simp only [Function.update_of_ne hji] at hc ⊢
    exact h.faithful hl j hj hc

lemma knows_update (h : Handover s) (hf : Follows s i info c) (misuse : List Misuse) :
    Knows { s with infos := Function.update s.infos i info
                   child := Function.update s.child i c
                   misuse := misuse }
      s.parent := by
  have hk := h.knows
  cases hp : s.parent with
  | pushBack j =>
    rw [hp] at hk
    rcases tid_update hf (by rw [hp]; rfl) j with he | ⟨rfl, he⟩
    · exact he.trans hk
    · exact he
  | retestExited childTid j | takeStatus childTid j =>
    rw [hp] at hk
    exact ⟨hk.1, hk.2.1, (exited_update hf hk.2.2).1⟩
  | remove childTid j status =>
    rw [hp] at hk
    obtain ⟨hx, hst⟩ := exited_update hf hk.2.2.1
    exact ⟨hk.1, hk.2.1, hx, hk.2.2.2.trans hst.symm⟩
  | freeWaited childTid j status =>
    rw [hp] at hk
    obtain ⟨hx, hst⟩ := exited_update hf hk.2.1
    exact ⟨hk.1, hx, hk.2.2.trans hst.symm⟩
  | search | searchNext | testExited | downWaitExitSema =>
    rw [hp] at hk
    exact hk
  | _ => trivial

lemma childGoto (h : Handover s) (hf : Follows s i info c) (misuse : List Misuse) :
    Handover { s with infos := Function.update s.infos i info, child := Function.update s.child i c,
                      misuse := misuse } := by
  constructor
  case tids =>
    intro hl j hj
    rcases tid_update hf hl j with he | ⟨rfl, he⟩
    · simp only [he]
      exact h.tids hl j hj
    · exact Or.inr he
  case faithful => exact fun hl j hj hc => h.faithful_update hf hl hj hc
  case early =>
    intro j
    by_cases hji : j = i
    · subst hji
      simpa only [Function.update_self] using hf.early
    · simpa only [Function.update_of_ne hji] using h.early j
  case listed =>
    intro hl j hj
    obtain ⟨hlive, hcj, ht⟩ := h.listed hl j hj
    refine ⟨hlive, present_update hf hcj, ?_⟩
    rcases tid_update hf hl j with he | ⟨rfl, he⟩
    · exact he.trans ht
    · exact he
  case own => exact h.own
  case unborn =>
    intro j hj
    have hji : j ≠ i := by
      rintro rfl
      exact hf.born (h.unborn j hj)
    simpa only [Function.update_of_ne hji] using h.unborn j hj
  case born => exact fun j hj hn => present_update hf (h.born j hj hn)
  case nodup => exact h.nodup
  case unfreed =>
    intro hl j st hj
    by_cases hji : j = i
    · subst hji
      exact hf.free hl st (by simpa only [Function.update_self] using hj)
    · exact h.unfreed hl j st (by simpa only [Function.update_of_ne hji] using hj)
  case unused =>
    intro j hj
    have hji : j ≠ i := by
      rintro rfl
      exact hf.used hj
    simpa only [Function.update_of_ne hji] using h.unused j hj
  case knows => exact h.knows_update hf misuse
  case executed => exact h.executed
  case owned => exact h.owned
  case waits =>
    intro j hj
    rcases h.waits j hj with hx | ⟨hm, hno, hx, n, he⟩
    · exact Or.inl hx
    · obtain ⟨hx', hs'⟩ := exited_update hf hx
      exact Or.inr ⟨hm, hno, hx', n, by rw [hs']; exact he⟩

end Child

lemma childStore (h : Handover s) {i : ℕ} {f : ThreadAdditionalInfo → ThreadAdditionalInfo} {c : ChildPc}
    (hborn : s.child i ≠ .absent) (hc : c ≠ .absent)
    (hexited : (s.child i).hasExited = true → c.hasExited = true ∧ c.stored = (s.child i).stored)
    (htid : (f (s.infos i)).tid = i ∨ (f (s.infos i)).tid = (s.infos i).tid)
    (hearly : (s.parent.inits i = 0 → c.hasExited = false) ∧ (s.parent.inits i ≤ 2 → c.status = none) ∧
      (s.parent.inits i ≤ 3 → c.hasUpped = false))
    (hfaithful : Faithful i s.parent (s.infos i) (s.child i) → Faithful i s.parent (f (s.infos i)) c)
    (hfree : s.parent.leaving = false → s.slots i = .live → ∀ st, c ≠ .freeOwn st) :
    Handover ((s.store i f).childGoto i c) := by
  have hlive : s.slots i ≠ .unused := fun hu => hborn (h.unused i hu)
  by_cases hl : s.slots i = .live
  · rw [Family.store_live hl]
    exact h.childGoto ⟨hlive, hborn, hc, hexited, fun _ => htid, hearly,
      fun hp _ => hfaithful (h.faithful hp i hl hborn), fun hp st he _ => hfree hp hl st he⟩ s.misuse
  · have hf : Follows s i (s.infos i) c := ⟨hlive, hborn, hc, hexited, fun _ => Or.inr rfl, hearly,
      fun _ hl' => absurd hl' hl, fun _ _ _ => hl⟩
    have := h.childGoto hf (s.misuse ++ [Misuse.afterFree i])
    rw [Function.update_eq_self] at this
    simpa only [Family.store, if_neg hl, Family.touch, Family.childGoto] using this

lemma executing (h : Handover s) {i : ℕ} {pc : ParentPc} (infos : ℕ → ThreadAdditionalInfo)
    (hon : s.parent.Onward pc) (hborn : s.parent.unborn = none) (hi : i ∈ s.parent.own)
    (hinits : ∀ j, s.parent.inits j ≤ pc.inits j) (hother : ∀ j, j ≠ i → infos j = s.infos j)
    (htid : (infos i).tid = (s.infos i).tid) (hpc : ∀ j, j ≠ i → s.parent.inits j = 4)
    (hfw : ∀ childTid i status, s.parent ≠ .freeWaited childTid i status) (hdown : ∀ j, s.parent.downed j = false)
    (hself : Faithful i s.parent (s.infos i) (s.child i) → Faithful i pc (infos i) (s.child i))
    (hknows : Knows { s with infos := infos, parent := pc } pc) :
    Handover { s with infos := infos, parent := pc } := by
  apply h.goto infos pc hon hborn hinits hfw _ _ hknows
  · intro j
    by_cases hj : j = i
    · rw [hj, htid]
    · rw [hother j hj]
  · intro j _ _ hf
    by_cases hj : j = i
    · subst hj
      exact hself hf
    · rw [hother j hj]
      have h₄ := hpc j hj
      exact ⟨fun _ => hf.exited (by omega), fun _ => hf.orphan (by omega), fun _ => hf.exitStatus (by omega),
        fun _ _ => hf.sema (by omega) (hdown j)⟩

lemma waiting (h : Handover s) {pc : ParentPc} (infos : ℕ → ThreadAdditionalInfo) (hon : s.parent.Onward pc)
    (hborn : s.parent.unborn = none) (hinits : ∀ j, s.parent.inits j = 4 ∧ pc.inits j = 4)
    (hfw : ∀ childTid i status, s.parent ≠ .freeWaited childTid i status)
    (hinfos : ∀ j, { infos j with waitExitSema := (s.infos j).waitExitSema } = s.infos j)
    (hdown : ∀ j, pc.downed j = false → s.parent.downed j = false ∧ infos j = s.infos j)
    (hknows : Knows { s with infos := infos, parent := pc } pc) :
    Handover { s with infos := infos, parent := pc } := by
  apply h.goto infos pc hon hborn _ hfw _ _ hknows
  · intro j
    rw [(hinits j).1, (hinits j).2]
  · intro j
    rw [← hinfos j]
  · rintro j _ _ ⟨hexited, horphan, hstatus, hsema⟩
    have hj := hinfos j
    rw [(hinits j).1] at hexited horphan hstatus hsema
    rw [← hj] at hexited horphan hstatus
    refine ⟨fun _ => hexited (by omega), fun _ => horphan (by omega), fun _ => hstatus (by omega), fun _ hd => ?_⟩
    obtain ⟨hd', he⟩ := hdown j hd
    rw [he]
    exact hsema (by omega) hd'

variable {t : Family} {created : Bool} {stale : ThreadAdditionalInfo} {childTid exitStatus : ℤ} {i : ℕ}
  {it : List ℕ}

lemma createStep (h : Handover s) (hp : s.parent = .create i)
    (e : PintOS.parentStep s created stale = some t) : Handover t := by
  cases created with
  | true =>
    simp only [PintOS.parentStep, hp, if_true, Family.goto, Family.childGoto, Option.some.injEq] at e
    subst e
    exact h.create hp
  | false =>
    simp only [PintOS.parentStep, hp, Bool.false_eq_true, if_false, Family.goto, Option.some.injEq] at e
    subst e
    exact h.fails hp

lemma initStep (h : Handover s)
    (hp : s.parent = .initExited i ∨ s.parent = .initOrphan i ∨ s.parent = .initExitStatus i ∨
      s.parent = .initWaitExitSema i)
    (e : PintOS.parentStep s created stale = some t) : Handover t := by
  rcases hp with hp | hp | hp | hp
  all_goals
    have hi := (h.own i (by rw [hp]; rfl)).1
    have hearly := h.early i
    simp only [PintOS.parentStep, hp, Family.store_live hi, Family.goto, Option.some.injEq] at e
    subst e
    rw [hp] at hearly
    apply h.executing (i := i) <;> try rw [hp]
    case hself =>
      rintro ⟨hexited, horphan, hstatus, hsema⟩
      constructor <;> grind [ParentPc.inits, ChildPc.stored]
    all_goals grind [ParentPc.Onward, ParentPc.own, ParentPc.unborn, ParentPc.leaving, ParentPc.inits,
      ParentPc.downed, Knows]

lemma downStartStep (h : Handover s) (hp : s.parent = .downStartSema i)
    (e : PintOS.parentStep s created stale = some t) : Handover t := by
  have hi := (h.own i (by rw [hp]; rfl)).1
  simp only [PintOS.parentStep, hp, Family.store_live hi, Family.goto, Option.ite_none_left_eq_some,
    Option.some.injEq] at e
  obtain ⟨-, rfl⟩ := e
  apply h.executing (i := i) <;> try rw [hp]
  case hself =>
    rintro ⟨hexited, horphan, hstatus, hsema⟩
    constructor <;> grind [ParentPc.inits, ParentPc.downed]
  all_goals grind [ParentPc.Onward, ParentPc.own, ParentPc.unborn, ParentPc.leaving, ParentPc.inits,
    ParentPc.downed, Knows]

lemma checkTidStep (h : Handover s) (hp : s.parent = .checkTid i)
    (e : PintOS.parentStep s created stale = some t) : Handover t := by
  have hi := (h.own i (by rw [hp]; rfl)).1
  have htid := h.tids (by rw [hp]; rfl) i hi
  simp only [PintOS.parentStep, hp, Family.touch_live hi, Family.load_live hi, Family.goto] at e
  split at e <;> obtain rfl := Option.some_injective _ e
  all_goals
    apply h.executing (i := i) <;> try rw [hp]
    case hself =>
      rintro ⟨hexited, horphan, hstatus, hsema⟩
      constructor <;> grind [ParentPc.inits, ParentPc.downed]
    all_goals grind [ParentPc.Onward, ParentPc.own, ParentPc.unborn, ParentPc.leaving, ParentPc.inits,
      ParentPc.downed, Knows]

lemma freeStep (h : Handover s) (hp : s.parent = .freeUncreated i ∨ s.parent = .freeUnloaded i)
    (e : PintOS.parentStep s created stale = some t) : Handover t := by
  rcases hp with hp | hp
  all_goals
    have hl := (h.own i (by rw [hp]; rfl)).1
    simp only [PintOS.parentStep, hp, Family.free_live hl, Family.goto, Family.event, Option.some.injEq] at e
    subst e
    refine h.release (by rw [hp]; rfl) (by rw [hp]; rfl) (by simp [hp, ParentPc.inits, ParentPc.downed])
      (Or.inl ⟨rfl, by simp [hp]⟩)

lemma pushBackStep (h : Handover s) (hp : s.parent = .pushBack i)
    (e : PintOS.parentStep s created stale = some t) : Handover t := by
  have htouch : s.touchAll (s.children.getLast?.toList ++ [i]) = s := by
    apply Family.touchAll_live
    intro j hj
    simp only [List.mem_append, Option.mem_toList, List.mem_singleton] at hj
    rcases hj with hj | rfl
    · exact (h.listed (by rw [hp]; rfl) j (List.mem_of_getLast? hj)).1
    · exact (h.own j (by rw [hp]; rfl)).1
  simp only [PintOS.parentStep, hp, htouch, Family.goto, Family.event, Option.some.injEq] at e
  subst e
  exact h.pushBack hp

lemma searchStep (h : Handover s) (hp : s.parent = .search childTid it)
    (e : PintOS.parentStep s created stale = some t) : Handover t := by
  have hk := h.knows
  rw [hp] at hk
  cases it with
  | nil =>
    simp only [PintOS.parentStep, hp, Family.goto, Family.event, Option.some.injEq] at e
    subst e
    exact h.waitFails hp
  | cons i it =>
    obtain ⟨pre, hpre, hne⟩ := hk
    have hi := h.listed (by rw [hp]; rfl) i (by simp [hpre])
    simp only [PintOS.parentStep, hp, Family.touch_live hi.1, Family.load_live hi.1, hi.2.2, Family.goto] at e
    split at e <;> obtain rfl := Option.some_injective _ e
    all_goals
      apply h.waiting <;> try rw [hp]
      all_goals grind [ParentPc.Onward, ParentPc.own, ParentPc.unborn, ParentPc.leaving, ParentPc.inits,
        ParentPc.downed, Knows]

lemma searchNextStep (h : Handover s) (hp : s.parent = .searchNext childTid i it)
    (e : PintOS.parentStep s created stale = some t) : Handover t := by
  have hk := h.knows
  rw [hp] at hk
  obtain ⟨pre, hpre, hne, hi⟩ := hk
  have hl := h.listed (by rw [hp]; rfl) i (by simp [hpre])
  simp only [PintOS.parentStep, hp, Family.touch_live hl.1, Family.goto, Option.some.injEq] at e
  subst e
  apply h.waiting <;> try rw [hp]
  case hknows =>
    refine ⟨pre ++ [i], by simp [hpre], ?_⟩
    intro j hj
    rcases List.mem_append.mp hj with hj | hj
    · exact hne j hj
    · rwa [List.mem_singleton.mp hj]
  all_goals grind [ParentPc.Onward, ParentPc.own, ParentPc.unborn, ParentPc.leaving, ParentPc.inits,
    ParentPc.downed]

lemma testExitedStep (h : Handover s) (hp : s.parent = .testExited childTid i)
    (e : PintOS.parentStep s created stale = some t) : Handover t := by
  have hk := h.knows
  rw [hp] at hk
  obtain ⟨hl, hcj, -⟩ := h.listed (by rw [hp]; rfl) i hk.1
  have hx := (h.faithful (by rw [hp]; rfl) i hl hcj).exited (by rw [hp]; exact Nat.le_of_ble_eq_true rfl)
  simp only [PintOS.parentStep, hp, Family.touch_live hl, Family.load_live hl, Family.goto] at e
  split at e <;> obtain rfl := Option.some_injective _ e
  all_goals
    apply h.waiting <;> try rw [hp]
    all_goals grind [ParentPc.Onward, ParentPc.own, ParentPc.unborn, ParentPc.leaving, ParentPc.inits,
      ParentPc.downed, Knows]

lemma downWaitStep (h : Handover s) (hp : s.parent = .downWaitExitSema childTid i)
    (e : PintOS.parentStep s created stale = some t) : Handover t := by
  have hk := h.knows
  rw [hp] at hk
  obtain ⟨hl, hcj, -⟩ := h.listed (by rw [hp]; rfl) i hk.1
  have hx := (h.faithful (by rw [hp]; rfl) i hl hcj).sema (by rw [hp]; exact le_rfl) (by rw [hp]; rfl)
  simp only [PintOS.parentStep, hp, Family.store_live hl, Family.load_live hl, Family.goto,
    Option.ite_none_left_eq_some, Option.some.injEq] at e
  obtain ⟨hne, rfl⟩ := e
  have hexited : (s.child i).hasExited = true := by
    apply ChildPc.hasExited_of_hasUpped
    by_contra hu
    rw [if_neg hu] at hx
    exact hne hx
  apply h.waiting <;> try rw [hp]
  case hinfos =>
    intro j
    by_cases hj : j = i
    · simp [hj]
    · rw [Function.update_of_ne hj]
  all_goals grind [ParentPc.Onward, ParentPc.own, ParentPc.unborn, ParentPc.leaving, ParentPc.inits,
    ParentPc.downed, Knows]

lemma retestStep (h : Handover s) (hp : s.parent = .retestExited childTid i ∨ s.parent = .takeStatus childTid i)
    (e : PintOS.parentStep s created stale = some t) : Handover t := by
  rcases hp with hp | hp
  all_goals
    have hk := h.knows
    rw [hp] at hk
    obtain ⟨hl, hcj, -⟩ := h.listed (by rw [hp]; rfl) i hk.1
    have hf := h.faithful (by rw [hp]; rfl) i hl hcj
    have hx := hf.exited (by rw [hp]; exact Nat.le_of_ble_eq_true rfl)
    have hst := hf.exitStatus (by rw [hp]; exact Nat.le_of_ble_eq_true rfl)
    simp only [PintOS.parentStep, hp, Family.touch_live hl, Family.load_live hl, hx, hk.2.2, if_true, Family.goto,
      Option.some.injEq] at e
    subst e
    apply h.waiting <;> try rw [hp]
    all_goals grind [ParentPc.Onward, ParentPc.own, ParentPc.unborn, ParentPc.leaving, ParentPc.inits,
      ParentPc.downed, Knows]

lemma removeStep (h : Handover s) (hp : s.parent = .remove childTid i exitStatus)
    (e : PintOS.parentStep s created stale = some t) : Handover t := by
  have hk := h.knows
  rw [hp] at hk
  have htouch : s.touchAll (i :: neighbours s.children i) = s := by
    apply Family.touchAll_live
    intro j hj
    have hm : j ∈ s.children := (List.mem_cons.mp hj).elim (fun he => he ▸ hk.1) neighbours_subset
    exact (h.listed (by rw [hp]; rfl) j hm).1
  simp only [PintOS.parentStep, hp, htouch, Family.goto, Option.some.injEq] at e
  subst e
  exact h.remove hp

lemma freeWaitedStep (h : Handover s) (hp : s.parent = .freeWaited childTid i exitStatus)
    (e : PintOS.parentStep s created stale = some t) : Handover t := by
  have hl := (h.own i (by rw [hp]; rfl)).1
  have hk := h.knows
  rw [hp] at hk
  obtain ⟨rfl, -⟩ := hk
  simp only [PintOS.parentStep, hp, Family.free_live hl, Family.goto, Family.event, Option.some.injEq] at e
  subst e
  refine h.release (by rw [hp]; rfl) (by rw [hp]; rfl) ?_ (Or.inr ⟨exitStatus, hp, rfl⟩)
  simp +contextual [hp, ParentPc.inits, ParentPc.downed]

lemma exitTestStep (h : Handover s) (hp : s.parent = .exitTest it)
    (e : PintOS.parentStep s created stale = some t) : Handover t := by
  have hown : s.parent.own = none := by rw [hp]; rfl
  cases it with
  | nil =>
    simp only [PintOS.parentStep, hp, Family.goto, Option.some.injEq] at e
    subst e
    exact h.exits s.infos s.slots .gone s.misuse rfl hown fun _ => Iff.rfl
  | cons i it =>
    simp only [PintOS.parentStep, hp, Family.touch, Family.goto] at e
    split at e <;> obtain rfl := Option.some_injective _ e <;> split <;>
      exact h.exits s.infos s.slots _ _ rfl hown fun _ => Iff.rfl

lemma exitFreeStep (h : Handover s) (hp : s.parent = .exitFree i it)
    (e : PintOS.parentStep s created stale = some t) : Handover t := by
  have hown : s.parent.own = none := by rw [hp]; rfl
  simp only [PintOS.parentStep, hp, Family.free, Family.goto, Option.some.injEq] at e
  subst e
  split
  next hl =>
    refine h.exits s.infos _ _ s.misuse rfl hown fun j => ?_
    by_cases hj : j = i
    · simp [hj, hl]
    · simp only [Function.update_of_ne hj]
  next => exact h.exits s.infos s.slots _ _ rfl hown fun _ => Iff.rfl

lemma exitOrphanStep (h : Handover s) (hp : s.parent = .exitOrphan i it)
    (e : PintOS.parentStep s created stale = some t) : Handover t := by
  have hown : s.parent.own = none := by rw [hp]; rfl
  simp only [PintOS.parentStep, hp, Family.store, Family.touch, Family.goto, Option.some.injEq] at e
  subst e
  split
  · exact h.exits _ s.slots _ s.misuse rfl hown fun _ => Iff.rfl
  · exact h.exits s.infos s.slots _ _ rfl hown fun _ => Iff.rfl

lemma exitNextStep (h : Handover s) (hp : s.parent = .exitNext i it)
    (e : PintOS.parentStep s created stale = some t) : Handover t := by
  have hown : s.parent.own = none := by rw [hp]; rfl
  simp only [PintOS.parentStep, hp, Family.touch, Family.goto, Option.some.injEq] at e
  subst e
  split <;> exact h.exits s.infos s.slots _ _ rfl hown fun _ => Iff.rfl

lemma parentStep (h : Handover s) (e : parentStep s created stale = some t) : Handover t := by
  cases hp : s.parent with
  | idle | gone => simp [PintOS.parentStep, hp] at e
  | create i => exact h.createStep hp e
  | initExited i => exact h.initStep (Or.inl hp) e
  | initOrphan i => exact h.initStep (Or.inr (Or.inl hp)) e
  | initExitStatus i => exact h.initStep (Or.inr (Or.inr (Or.inl hp))) e
  | initWaitExitSema i => exact h.initStep (Or.inr (Or.inr (Or.inr hp))) e
  | downStartSema i => exact h.downStartStep hp e
  | checkTid i => exact h.checkTidStep hp e
  | freeUncreated i => exact h.freeStep (Or.inl hp) e
  | freeUnloaded i => exact h.freeStep (Or.inr hp) e
  | pushBack i => exact h.pushBackStep hp e
  | search childTid it => exact h.searchStep hp e
  | searchNext childTid i it => exact h.searchNextStep hp e
  | testExited childTid i => exact h.testExitedStep hp e
  | downWaitExitSema childTid i => exact h.downWaitStep hp e
  | retestExited childTid i => exact h.retestStep (Or.inl hp) e
  | takeStatus childTid i => exact h.retestStep (Or.inr hp) e
  | remove childTid i exitStatus => exact h.removeStep hp e
  | freeWaited childTid i exitStatus => exact h.freeWaitedStep hp e
  | exitTest it => exact h.exitTestStep hp e
  | exitFree i it => exact h.exitFreeStep hp e
  | exitOrphan i it => exact h.exitOrphanStep hp e
  | exitNext i it => exact h.exitNextStep hp e

lemma childStep (h : Handover s) (hc : timelyChild s i (s.child i) = true)
    (e : childStep s i stale = some t) : Handover t := by
  have hearly := h.early i
  cases hp : s.child i with
  | absent | loading | running | done status => simp [PintOS.childStep, hp] at e
  | storeTid | upStartSema success | storeExitStatus status | setExited status | upWaitExitSema status =>
    rw [hp] at hearly hc
    simp only [PintOS.childStep, hp, Option.some.injEq] at e
    subst e
    apply h.childStore <;> try rw [hp]
    case hfaithful =>
      rintro ⟨hexited, horphan, hstatus, hsema⟩
      constructor <;>
        grind [ChildPc.hasExited, ChildPc.hasUpped, ChildPc.status, ChildPc.stored, timelyChild]
    all_goals grind [ChildPc.hasExited, ChildPc.hasUpped, ChildPc.status, ChildPc.stored, timelyChild]
  | testOrphan status =>
    have hborn : s.child i ≠ .absent := by simp [hp]
    have h₄ : 2 ≤ s.parent.inits i := by
      by_contra hlt
      have hu := hearly.2.2 (by omega)
      rw [hp] at hu
      cases hu
    have hid : s.touch i = s.store i fun info => info := by
      simp only [Family.touch, Family.store, Function.update_eq_self]
      split <;> rfl
    simp only [PintOS.childStep, hp, hid, Option.some.injEq] at e
    subst e
    obtain ⟨c, hcdef⟩ : ∃ c, (if (s.load stale i).orphan then ChildPc.freeOwn status else .done status) = c :=
      ⟨_, rfl⟩
    have hnext : c ≠ .absent ∧ c.hasExited = true ∧ c.hasUpped = true ∧ c.status = status := by
      subst hcdef
      split <;> exact ⟨by simp, rfl, rfl, rfl⟩
    have hstored : c.stored = (s.child i).stored := by
      rw [ChildPc.stored, hnext.2.2.2, hp]
      rfl
    rw [hcdef]
    refine h.childStore hborn hnext.1 (fun _ => ⟨hnext.2.1, hstored⟩) (Or.inr rfl) ?_ ?_ ?_
    · rw [hp] at hearly
      rw [hnext.2.1, hnext.2.2.1, hnext.2.2.2]
      exact hearly
    · rintro ⟨hexited, horphan, hstatus, hsema⟩
      rw [hp] at hexited hsema
      refine ⟨?_, horphan, ?_, ?_⟩
      · rw [hnext.2.1]
        exact hexited
      · rw [hstored]
        exact hstatus
      · rw [hnext.2.2.1]
        exact hsema
    · intro hl hlive st
      have ho := (h.faithful hl i hlive hborn).orphan h₄
      rw [← hcdef, Family.load_live hlive, ho]
      simp
  | freeOwn status =>
    have hborn : s.child i ≠ .absent := by simp [hp]
    have hlive : s.slots i ≠ .unused := fun hu => hborn (h.unused i hu)
    rw [hp] at hearly
    have hdone :
      ∀ misuse, Handover { s with child := Function.update s.child i (.done status), misuse := misuse } := by
      intro misuse
      have hf : Follows s i (s.infos i) (.done status) := by
        refine ⟨hlive, hborn, by simp, fun _ => by rw [hp]; exact ⟨rfl, rfl⟩, fun _ => Or.inr rfl, hearly,
          fun hl hs => ?_, by simp⟩
        have := h.faithful hl i hs hborn
        rw [hp] at this
        exact ⟨this.exited, this.orphan, this.exitStatus, this.sema⟩
      have := h.childGoto hf misuse
      rwa [Function.update_eq_self] at this
    simp only [PintOS.childStep, hp, Family.free, Family.childGoto, Option.some.injEq] at e
    subst e
    split
    next hl =>
      have hleave : s.parent.leaving = true := by
        by_contra hn
        exact h.unfreed (by simpa using hn) i status hp hl
      have hown : s.parent.own = none := by
        cases hpp : s.parent <;> simp [hpp, ParentPc.leaving, ParentPc.own] at hleave ⊢
      refine (hdone s.misuse).exits s.infos _ s.parent s.misuse hleave hown fun j => ?_
      by_cases hj : j = i
      · simp [hj, hl]
      · simp only [Function.update_of_ne hj]
    next => exact hdone _

lemma childRuns (h : Handover s) {i : ℕ} {c : ChildPc} (hp : s.child i = .loading ∨ s.child i = .running)
    (hc : c ≠ .absent ∧ c.hasExited = false ∧ c.hasUpped = false ∧ c.status = none) :
    Handover (s.childGoto i c) := by
  have hborn : s.child i ≠ .absent := by rcases hp with hp | hp <;> simp [hp]
  have hlive : s.slots i ≠ .unused := fun hu => hborn (h.unused i hu)
  have hold : (s.child i).hasExited = false ∧ (s.child i).hasUpped = false ∧ (s.child i).status = none := by
    rcases hp with hp | hp <;> rw [hp] <;> exact ⟨rfl, rfl, rfl⟩
  have hf : Follows s i (s.infos i) c := by
    refine ⟨hlive, hborn, hc.1, by simp [hold.1], fun _ => Or.inr rfl,
      ⟨fun _ => hc.2.1, fun _ => hc.2.2.2, fun _ => hc.2.2.1⟩, fun hl hs => ?_, ?_⟩
    · obtain ⟨hexited, horphan, hstatus, hsema⟩ := h.faithful hl i hs hborn
      constructor <;> simp_all [ChildPc.stored]
    · rintro _ st rfl
      cases hc.2.1
  have := h.childGoto hf s.misuse
  rwa [Function.update_eq_self] at this

lemma step {t : Family} (h : Handover s) {m : Move} (hm : Timely s m) (e : step s m = some t) : Handover t := by
  cases m with
  | execute i garbage =>
    simp only [PintOS.step, Option.ite_none_right_eq_some, Family.goto, Option.some.injEq] at e
    obtain ⟨⟨hp, hi⟩, rfl⟩ := e
    exact h.execute _ hp hi rfl
  | wait childTid =>
    simp only [PintOS.step, Option.ite_none_right_eq_some, Family.goto, Option.some.injEq] at e
    obtain ⟨hp, rfl⟩ := e
    apply h.waiting <;> try rw [hp]
    case hknows => exact ⟨[], rfl, by simp⟩
    all_goals grind [ParentPc.Onward, ParentPc.own, ParentPc.unborn, ParentPc.leaving, ParentPc.inits,
      ParentPc.downed]
  | leave =>
    simp only [PintOS.step, Option.ite_none_right_eq_some, Family.goto, Option.some.injEq] at e
    obtain ⟨hp, rfl⟩ := e
    exact h.exits s.infos s.slots _ s.misuse rfl (by rw [hp]; rfl) fun _ => Iff.rfl
  | parent created stale => exact h.parentStep e
  | load i success =>
    simp only [PintOS.step, Option.ite_none_right_eq_some, Option.some.injEq] at e
    obtain ⟨hp, rfl⟩ := e
    apply h.childRuns (Or.inl hp)
    cases success <;> exact ⟨by simp, rfl, rfl, rfl⟩
  | exit i status | kill i =>
    simp only [PintOS.step, Option.ite_none_right_eq_some, Option.some.injEq] at e
    obtain ⟨hp, rfl⟩ := e
    exact h.childRuns (Or.inr hp) ⟨by simp, rfl, rfl, rfl⟩
  | child i stale => exact h.childStep hm e

end Handover

lemma newFamily_handover : Handover newFamily := by
  constructor <;> simp [newFamily, ParentPc.inits, ParentPc.own, ParentPc.unborn, Knows, ChildPc.hasExited,
    ChildPc.status, ChildPc.hasUpped]

def ChildPc.ended : ChildPc → Option (Option ℤ)
  | upWaitExitSema status | testOrphan status | freeOwn status | done status => some status
  | _ => none

/-- The first wait for a child returns the status it passed to `exit`, or `-1` if it passed none, and every later
one `-1`; no parent is blocked in `sema_down` on a child that has finished. -/
structure WaitsRight (s : Family) : Prop where
  statuses : ∀ i : ℕ, .executed i ∈ s.log → waitsAfter i s.log = [] ∨
    ∃ status n, (s.child i).ended = some status ∧ waitsAfter i s.log = status.getD (-1) :: List.replicate n (-1)
  awake : ∀ childTid i status, s.parent = .downWaitExitSema childTid i → s.child i = .done status →
    (s.infos i).waitExitSema ≠ 0

theorem waits_right {s : Family} (hr : Reaches step Timely newFamily s) : WaitsRight s := by
  have h : Handover s := hr.invariant Handover (fun _ _ _ hs hm e => hs.step hm e) newFamily_handover
  constructor
  case statuses =>
    intro i hi
    rcases h.waits i hi with ⟨-, he⟩ | ⟨-, -, hx, n, he⟩
    · exact Or.inl he
    · right
      cases hp : s.child i with
      | upWaitExitSema status | testOrphan status | freeOwn status | done status =>
        rw [hp] at he
        exact ⟨status, n, rfl, he⟩
      | _ =>
        rw [hp] at hx
        cases hx
  case awake =>
    intro childTid i status hp hd
    have hk := h.knows
    rw [hp] at hk
    obtain ⟨hl, hc, -⟩ := h.listed (by rw [hp]; rfl) i hk.1
    have hsema := (h.faithful (by rw [hp]; rfl) i hl hc).sema (by rw [hp]; exact le_rfl) (by rw [hp]; rfl)
    rw [hsema, hd]
    simp [ChildPc.hasUpped]

def timelyMoves : List Move :=
  startMoves 3 ++ startMoves 5 ++ .wait 5 :: parentMoves 4 ++ .exit 5 9 :: childMoves 5 4 ++ parentMoves 5 ++
    .wait 5 :: parentMoves 3 ++ .kill 3 :: childMoves 3 3 ++ .wait 3 :: parentMoves 6

theorem waits_right_of_two : ∃ s, play step newFamily timelyMoves = some s ∧ WaitsRight s ∧
    waitsAfter 5 s.log = [9, -1] ∧ waitsAfter 3 s.log = [-1] := by
  have hok : AllOk step Timely newFamily timelyMoves := by decide
  have hend : ((play step newFamily timelyMoves).map fun s => (waitsAfter 5 s.log, waitsAfter 3 s.log)) =
      some ([9, -1], [-1]) := by decide
  obtain ⟨s, hs, he⟩ := Option.map_eq_some_iff.mp hend
  simp only [Prod.mk.injEq] at he
  exact ⟨s, hs, waits_right (reaches_of_allOk _ hok hs), he⟩

def hastyMoves : List Move :=
  .execute 3 clutter :: parentMoves 1 ++ .load 3 true :: childMoves 3 2 ++ .exit 3 7 :: childMoves 3 1 ++
  parentMoves 4 ++
    childMoves 3 3 ++ parentMoves 3 ++ .wait 3 :: parentMoves 6

theorem exit_status_overwritten : ¬ ∀ s, Reaches step anyMove newFamily s → WaitsRight s := by
  intro h
  have hend : ((play step newFamily hastyMoves).map fun s => (s.log, s.child 3)) =
      some ([.executed 3, .waited 3 (-1)], .done (some 7)) := by decide
  obtain ⟨s, hs, he⟩ := Option.map_eq_some_iff.mp hend
  simp only [Prod.mk.injEq] at he
  rcases (h s (reaches_of_play _ hs)).statuses 3 (by simp [he.1]) with hw | ⟨status, n, hd, hw⟩
  · rw [he.1] at hw
    cases hw
  · rw [he.2] at hd
    obtain rfl : some 7 = status := Option.some_injective _ hd
    rw [he.1] at hw
    cases hw

end CourseArchive.PintOS
