import CourseArchive.MmAlloc.Taken

/-! `mm_realloc` of a pointer that is not live. -/

namespace CourseArchive.MmAlloc

open Lib Heap

def LiveBlock (h : Heap) (p n : ℕ) : Prop :=
  ∃ a ∈ blocks h, h.get a .isFree = 0 ∧ p = a + blockSize ∧ h.get a .size = n

def Rejects (h : Heap) (p n : ℕ) : Prop :=
  ∃ h', mmRealloc p n h = some (null, h') ∧ ∀ q k, LiveBlock h' q k ↔ LiveBlock h q k

/-- The heap has no room for `n` bytes, or `p` passes `find_head` and a byte of the `is_free` word it leads to is
not zero: it was not before and the request leaves it alone, or it lies in a word that the request puts down. -/
def SeenFree (h : Heap) (p n : ℕ) : Prop :=
  NoRoom h n ∨ findHead p h ≠ null ∧ ∃ i < Field.isFree.width,
  NonzeroAt h n (findHead p h + Field.isFree.offset + i)

instance (h : Heap) (p n : ℕ) : Decidable (SeenFree h p n) := inferInstanceAs (Decidable (_ ∨ _))

lemma Valid.liveBlock_iff {h : Heap} {bs : List Blk} (hv : Valid h bs) {p n : ℕ} :
    LiveBlock h p n ↔ ∃ b, Used bs b ∧ p = b.data ∧ b.size = n := by
  rw [LiveBlock, hv.exists_blocks]
  simp only [Used, and_assoc]
  apply exists_congr
  intro b
  apply and_congr_right
  intro hb
  obtain ⟨_, _, hd⟩ := hv.get_header hb
  rw [hd.isFree_iff, hd.size]
  rfl

lemma liveBlock_congr {h h' : Heap} {bs bs' : List Blk} (hv : Valid h bs) (hv' : Valid h' bs')
    (hu : ∀ b, Used bs' b ↔ Used bs b) (p n : ℕ) : LiveBlock h' p n ↔ LiveBlock h p n := by
  simp only [hv.liveBlock_iff, hv'.liveBlock_iff, hu]

lemma findHead_null {h : Heap} {bs : List Blk} (hv : Valid h bs) : findHead null h = null := by
  cases bs with
  | nil => exact if_pos hv.first
  | cons b bs =>
    have hd := hv.linked.1
    rw [findHead, if_neg (hv.first_ne_null (List.mem_cons_self ..)), if_pos (Or.inl ?_)]
    rw [show h.first = b.addr from hv.first, hd.ptr]
    simp [Blk.data]

lemma findHead_nil {h : Heap} (hv : Valid h []) (p : ℕ) : findHead p h = null := if_pos hv.first

lemma Valid.seenFree_iff {h h₁ : Heap} {bs : List Blk} {p n r : ℕ} (hv : Valid h bs) (hn : n ≠ 0)
    (hh : Handled h n) (e : mmMalloc n h = some (r, h₁)) :
    SeenFree h p n ↔ r = null ∨ (findHead p h ≠ null ∧ h₁.get (findHead p h) .isFree ≠ 0) := by
  rcases mmMalloc_taken hv hn hh with ⟨h', e', hno⟩ | ⟨a, h', e', hw⟩
  · obtain ⟨rfl, rfl⟩ := Prod.mk.inj (Option.some_injective _ (e.symm.trans e'))
    exact iff_of_true (Or.inl hno) (Or.inl rfl)
  · obtain ⟨rfl, rfl⟩ := Prod.mk.inj (Option.some_injective _ (e.symm.trans e'))
    have hroom : ¬ NoRoom h n := by
      intro hno
      obtain ⟨h', e''⟩ := hno.refused hv hn hh
      simp [e] at e''
    rw [SeenFree, or_iff_right hroom, or_iff_right (by simp)]
    apply and_congr_right
    intro hc
    have hne : bs ≠ [] := by
      rintro rfl
      exact hc (findHead_nil hv p)
    rw [Heap.get, hw hne, Memory.load_ne_zero_iff]
    simp only [nonzeroAt_iff hv]

lemma Valid.seenFree_listed {h : Heap} {bs : List Blk} {c : Blk} {n : ℕ} (hv : Valid h bs) (hc : c ∈ bs)
    (hf : c.free = true) :
    SeenFree h c.data n ↔ NoRoom h n ∨ firstFree h n ≠ some c.addr := by
  obtain ⟨p, q, hd⟩ := hv.get_header hc
  have hflag : ∃ i < Field.isFree.width, h.mem (c.addr + Field.isFree.offset + i) ≠ 0 := by
    rw [← Memory.load_ne_zero_iff]
    exact hd.isFree_iff.not.mpr (by simpa using hf)
  rw [SeenFree, findHead_spec hv.toLaid hc]
  refine or_congr_right ?_
  constructor
  · rintro ⟨-, i, hi, hnonzero⟩
    exact ((hv.nonzeroAt_listed hc ⟨Nat.le_add_right _ _, Nat.add_lt_add_left hi _⟩).mp hnonzero).1
  · intro hne
    obtain ⟨i, hi, hmem⟩ := hflag
    exact ⟨(hv.pos c hc).ne', i, hi,
      (hv.nonzeroAt_listed hc ⟨Nat.le_add_right _ _, Nat.add_lt_add_left hi _⟩).mpr ⟨hne, hmem⟩⟩

lemma mmRealloc_eq {h h₁ : Heap} {p n r : ℕ} (hn : n ≠ 0)
    (e : mmMalloc n h = some (r, h₁)) : ∃ h₂, mmRealloc p n h = some
      (if r = null then (null, h₁)
      else if p = null then (r, h₁)
      else if findHead p h = null then (null, h₁)
      else if h₁.get (findHead p h) .isFree ≠ 0 then (null, mmFree r h₁)
      else (r, h₂)) := by
  by_cases hp : p = null
  · refine ⟨h₁, ?_⟩
    rw [mmRealloc, if_neg hn, if_pos hp, if_pos hp, e]
    by_cases hr : r = null
    · rw [if_pos hr, hr]
    · rw [if_neg hr]
  · let size := h₁.get (findHead p h) .size
    refine ⟨mmFree p (h₁.memcpy r p (if size > n then n else size)), ?_⟩
    rw [mmRealloc, if_neg hn, if_neg hp, if_neg hp, e]
    simp only [Option.bind_eq_bind, Option.bind_some]
    by_cases hr : r = null
    · simp [hr]
    · by_cases hc : findHead p h = null
      · simp [hc]
      · rw [if_pos ⟨hc, hr⟩, if_neg hr, if_neg hc]
        split
        next => rfl
        next => rfl

lemma Owns.rejects_iff {s : Session} {bs : List Blk} (ho : Owns s bs) (hpos : 0 < s.heap.brk) {p n : ℕ}
    (hn : n ≠ 0) (hh : Handled s.heap n) : Rejects s.heap p n ↔ SeenFree s.heap p n := by
  have hv := ho.valid
  rcases mmMalloc_spec hv hpos (Or.inr ho.started) hh.1 hh.2 with ⟨h₁, e, hg⟩ | ⟨a, h₁, bs₁, e, hs⟩
  · -- nothing is allocated
    have hseen : SeenFree s.heap p n := (hv.seenFree_iff hn hh e).mpr (Or.inl rfl)
    refine iff_of_true ⟨h₁, ?_, liveBlock_congr hv (hg.valid hv) fun _ => Iff.rfl⟩ hseen
    obtain ⟨h₂, er⟩ := mmRealloc_eq (p := p) hn e
    rw [er, if_pos rfl]
  · have hne : a + blockSize ≠ null := by simp
    have hnew : LiveBlock h₁ (a + blockSize) n := hs.valid.liveBlock_iff.mpr ⟨_, hs.block, rfl, rfl⟩
    have hold : ¬ LiveBlock s.heap (a + blockSize) n := by
      rw [hv.liveBlock_iff]
      rintro ⟨b, hb, he, -⟩
      exact hs.fresh (inUse_iff.mpr ⟨b, hb, he.symm⟩)
    have hseen : SeenFree s.heap p n ↔ findHead p s.heap ≠ null ∧ h₁.get (findHead p s.heap) .isFree ≠ 0 :=
      (hv.seenFree_iff hn hh e).trans (or_iff_right hne)
    obtain ⟨h₂, er⟩ := mmRealloc_eq (p := p) hn e
    rw [if_neg hne] at er
    rw [hseen, Rejects, er]
    by_cases hp : p = null
    · rw [if_pos hp, hp, findHead_null hv]
      simp
    rw [if_neg hp]
    by_cases hc : findHead p s.heap = null
    · -- the new block has no owner
      rw [if_pos hc]
      refine iff_of_false ?_ fun hs => hs.1 hc
      rintro ⟨h', e', hl⟩
      obtain ⟨-, rfl⟩ := Prod.mk.inj (Option.some_injective _ e')
      exact hold ((hl _ _).mp hnew)
    rw [if_neg hc]
    by_cases hf : h₁.get (findHead p s.heap) .isFree ≠ 0
    · rw [if_pos hf]
      refine iff_of_true ⟨_, rfl, ?_⟩ ⟨hc, hf⟩
      obtain ⟨bs', hv', -, hu, -⟩ := mmFree_spec hs.valid hs.block
      apply liveBlock_congr hv hv'
      intro b
      rw [hu, hs.used]
      constructor
      · rintro ⟨rfl | hb, hne⟩
        · exact (hne rfl).elim
        · exact hb
      · intro hb
        refine ⟨Or.inr hb, ?_⟩
        rintro rfl
        exact hs.fresh (inUse_iff.mpr ⟨_, hb, rfl⟩)
    · -- the pointer counts as live
      rw [if_neg hf]
      refine iff_of_false ?_ fun hs => hf hs.2
      rintro ⟨h', e', -⟩
      exact hne (Prod.mk.inj (Option.some_injective _ e')).1

/-- After any run whose requests are all handled, a handled `mm_realloc` rejects a pointer that is not live exactly
when it sees a free block there or cannot allocate. A free block on the list it sees unless the request reuses the
block itself. -/
theorem dangling_realloc_rejected_iff (h : Heap) (ops : List Op) (hu : Untouched h)
    (ha : AllOk Session.step (Op.Allowed Handled) (Session.start h) ops) :
    ∃ s, play Session.step (Session.start h) ops = some s ∧
      (∀ p n, s.owned p = none → n ≠ 0 → Handled s.heap n → (Rejects s.heap p n ↔ SeenFree s.heap p n)) ∧
      ∀ a ∈ blocks s.heap, s.heap.get a .isFree ≠ 0 → ∀ n, n ≠ 0 → Handled s.heap n →
        (Rejects s.heap (a + blockSize) n ↔ NoRoom s.heap n ∨ firstFree s.heap n ≠ some a) := by
  obtain ⟨s, e, hpos, bs, ho⟩ := hu.run ha
  refine ⟨s, e, fun p n _ hn hh => ho.rejects_iff hpos hn hh, fun a ha hfree n hn hh => ?_⟩
  rw [ho.valid.blocks_eq] at ha
  obtain ⟨b, hb, rfl⟩ := List.mem_map.mp ha
  obtain ⟨p, q, hd⟩ := ho.valid.get_header hb
  rw [ho.rejects_iff hpos hn hh]
  exact ho.valid.seenFree_listed hb (by simpa [hd.isFree_iff] using hfree)

theorem dangling_realloc_rejected_iff_page : ∃ s, play Session.step (Session.start pageHeap) pageOps = some s ∧
    (∀ p n, s.owned p = none → n ≠ 0 → Handled s.heap n → (Rejects s.heap p n ↔ SeenFree s.heap p n)) ∧
    ∀ a ∈ blocks s.heap, s.heap.get a .isFree ≠ 0 → ∀ n, n ≠ 0 → Handled s.heap n →
      (Rejects s.heap (a + blockSize) n ↔ NoRoom s.heap n ∨ firstFree s.heap n ≠ some a) :=
  dangling_realloc_rejected_iff pageHeap pageOps untouched_pageHeap (by decide)

theorem dangling_realloc_accepted :
    (∃ s, play Session.step (Session.start pageHeap) [.malloc 8] = some s ∧ s.owned 4137 = none ∧
      ¬ Rejects s.heap 4137 8) ∧
    ∃ s, play Session.step (Session.start pageHeap) [.malloc 8, .free 4136] = some s ∧ s.owned 4136 = none ∧
      ¬ Rejects s.heap 4136 8 ∧
      ∃ h', mmRealloc 4136 8 s.heap = some (4136, h') ∧ 4096 ∈ blocks h' ∧ h'.get 4096 .isFree ≠ 0 := by
  have hrun : ∀ ops p n, AllOk Session.step (Op.Allowed Handled) (Session.start pageHeap) ops → n ≠ 0 →
      (∀ s, play Session.step (Session.start pageHeap) ops = some s →
        s.owned p = none ∧ Handled s.heap n ∧ ¬ SeenFree s.heap p n) →
      ∃ s, play Session.step (Session.start pageHeap) ops = some s ∧ s.owned p = none ∧ ¬ Rejects s.heap p n := by
    intro ops p n ha hn hs
    obtain ⟨s, e, hpos, bs, ho⟩ := untouched_pageHeap.run ha
    obtain ⟨hown, hh, hno⟩ := hs s e
    exact ⟨s, e, hown, (ho.rejects_iff hpos hn hh).not.mpr hno⟩
  constructor
  · apply hrun [.malloc 8] 4137 8 (by decide) (by decide)
    rintro s ⟨⟩
    decide
  · obtain ⟨s, e, hown, hno⟩ := hrun [.malloc 8, .free 4136] 4136 8 (by decide) (by decide) (by
      rintro s ⟨⟩
      decide)
    refine ⟨s, e, hown, hno, ?_⟩
    cases e
    refine ⟨_, rfl, ?_⟩
    decide

end CourseArchive.MmAlloc
