import CourseArchive.MmAlloc.Dangling

/-! What `mm_free` gives back of a block that `mm_malloc` took from a larger free one. -/

namespace CourseArchive.MmAlloc

open Lib Heap

def ServedWithin (h : Heap) (m : ℕ) : Prop := ∃ r h', mmMalloc m h = some (r, h') ∧ r ≠ null ∧ h'.brk = h.brk

def GivesBack (h : Heap) (n : ℕ) : Prop :=
  ∃ p h₁, mmMalloc n h = some (p, h₁) ∧ ∀ m, m ≠ 0 → HasFit h m → ServedWithin (mmFree p h₁) m

/-- Nothing is lost behind the first `n` bytes of the block at `a`: it has no others, a header fits into them,
another free block is as large, or there is as much room before the break. -/
def TailKept (h : Heap) (n a : ℕ) : Prop :=
  h.get a .size = n ∨ n + blockSize ≤ h.get a .size ∨
    (∃ c ∈ blocks h, c ≠ a ∧ h.get c .isFree ≠ 0 ∧ h.get a .size ≤ h.get c .size) ∨
    h.get a .size + blockSize ≤ slack h + if (blocks h).getLast? = some a then h.get a .size - n else 0

instance (h : Heap) (n a : ℕ) : Decidable (TailKept h n a) := inferInstanceAs (Decidable (_ ∨ _))

def kept (b : Blk) (n : ℕ) : Blk := if blockSize ≤ b.size - n then b else ⟨b.addr, n, true⟩

section

variable {h : Heap} {bs pre post : List Blk} {b l : Blk} {m n : ℕ}

lemma release_carved (hv : Valid h (pre ++ [b] ++ post)) (hb : Fits n b) :
    release pre ⟨b.addr, n, true⟩ (rest b n ++ post) = pre ++ [kept b n] ++ post := by
  have hm : (pre ++ b :: post).IsChain fun a b => ¬ (a.free = true ∧ b.free = true) := by simpa using hv.merged
  rw [List.isChain_append] at hm
  have hpre : ∀ x ∈ pre.getLast?, x.free = false := by
    intro x hx
    simpa [hb.1] using hm.2.2 x hx b rfl
  have hpost : ∀ x ∈ post.head?, x.free = false := by
    intro x hx
    simpa [hb.1] using (List.isChain_cons.mp hm.2.1).1 x hx
  rw [release_alone hpre, rest, kept]
  split
  next hs =>
    have hfuse : fuse ⟨b.addr, n, true⟩ ⟨b.data + n, b.size - n - blockSize, true⟩ = b := by
      obtain ⟨addr, size, free⟩ := b
      obtain rfl : free = true := hb.1
      simp only [fuse, Blk.data, Blk.stop, blockSize, Blk.mk.injEq, true_and, and_true] at *
      omega
    simp [joinRight, hfuse]
  next =>
    rw [List.nil_append, joinRight_alone hpost]
    simp

lemma malloc_free_spec (hv : Valid h bs) (hn : n ≠ 0) (hfit : ∃ b ∈ bs, Fits n b) :
    ∃ pre b post h₁, bs = pre ++ [b] ++ post ∧ Fits n b ∧ (∀ x ∈ pre, ¬ Fits n x) ∧
      mmMalloc n h = some (b.data, h₁) ∧ Valid (mmFree b.data h₁) (pre ++ [kept b n] ++ post) ∧
      (mmFree b.data h₁).brk = h.brk := by
  obtain ⟨pre, b, post, h₁, rfl, hb, hno, e, hg, hs, -⟩ := mmMalloc_found hv hn hfit
  have hv₁ : Valid h₁ (pre ++ ⟨b.addr, n, false⟩ :: (rest b n ++ post)) := by simpa [carve] using hs.valid
  obtain ⟨hl, hg', -⟩ := mmFree_release hv₁.toLaid rfl
  have hm := release_merged hv₁.merged
  dsimp only at hl hm
  rw [release_carved hv hb] at hl hm
  exact ⟨pre, b, post, h₁, rfl, hb, hno, e, ⟨hl, hm⟩, hg'.brk.trans hg.brk⟩

lemma servedWithin_iff (hv : Valid h (pre ++ [l])) (hm : m ≠ 0) (hle : m + blockSize ≤ h.brk) :
    ServedWithin h m ↔ HasFit h m ∨ m + blockSize ≤ slack h := by
  rw [slack_append hv]
  by_cases hfit : ∃ b ∈ pre ++ [l], Fits m b
  · obtain ⟨_, b, _, h', -, -, -, e, hg, -⟩ := mmMalloc_found hv hm hfit
    exact iff_of_true ⟨_, h', e, by simp, hg.brk⟩ (Or.inl (hv.hasFit_iff.mpr hfit))
  · rw [or_iff_right (hv.hasFit_iff.not.mpr hfit), ServedWithin,
      mmMalloc_missing hv hm fun b hb hf => hfit ⟨b, hb, hf⟩]
    have hl := (hv.inside l (by simp)).2
    by_cases hroom : l.stop + blockSize + m ≤ h.brk
    · obtain ⟨h', e, hg, -⟩ := append_room hv hroom
      refine iff_of_true ⟨_, h', congrArg some e, by simp, hg.brk⟩ ?_
      omega
    · refine iff_of_false ?_ (by omega)
      rintro ⟨r, h', e, hr, hbrk⟩
      rcases append_grow hv hle (by omega) with ⟨h'', e', hgrow, -⟩ | ⟨h'', e', -⟩
      · obtain ⟨-, rfl⟩ := Prod.mk.inj ((Option.some_injective _ e).symm.trans e')
        omega
      · exact hr (Prod.mk.inj ((Option.some_injective _ e).symm.trans e')).1

lemma slack_kept {h' : Heap} (hv : Valid h (pre ++ [b] ++ post))
    (hv' : Valid h' (pre ++ [⟨b.addr, n, true⟩] ++ post)) (hbrk : h'.brk = h.brk) (hn : n ≤ b.size) :
    slack h' = slack h + if (blocks h).getLast? = some b.addr then b.size - n else 0 := by
  rcases List.eq_nil_or_concat post with rfl | ⟨post, l, rfl⟩
  · rw [List.append_nil] at hv hv'
    have hin := (hv.inside b (by simp)).2
    rw [slack_append hv, slack_append hv', hbrk, hv.blocks_eq, List.map_append, List.map_singleton,
      List.getLast?_concat, if_pos rfl]
    simp only [Blk.stop] at *
    omega
  · rw [List.concat_eq_append, ← List.append_assoc] at hv hv'
    have hne : l.addr ≠ b.addr := by
      have := (List.pairwise_append.mp hv.apart).2.2 b (by simp) l (by simp)
      simp only [Blk.stop, blockSize] at this
      omega
    rw [slack_append hv, slack_append hv', hbrk, hv.blocks_eq, List.map_append, List.map_singleton,
      List.getLast?_concat, if_neg (by simpa using hne), Nat.add_zero]

lemma exists_other_iff (hv : Valid h (pre ++ [b] ++ post)) :
    (∃ c ∈ blocks h, c ≠ b.addr ∧ h.get c .isFree ≠ 0 ∧ m ≤ h.get c .size) ↔ ∃ c ∈ pre ++ post, Fits m c := by
  rw [hv.exists_blocks]
  constructor
  · rintro ⟨c, hc, hne, hf, hs⟩
    obtain ⟨_, _, hd⟩ := hv.get_header hc
    rw [hd.isFree] at hf
    rw [hd.size] at hs
    refine ⟨c, ?_, by simpa using hf, hs⟩
    simp only [List.mem_append, List.mem_singleton] at hc ⊢
    rcases hc with (hc | rfl) | hc
    · exact Or.inl hc
    · exact (hne rfl).elim
    · exact Or.inr hc
  · rintro ⟨c, hc, hf, hs⟩
    have hv₁ : Laid h (pre ++ b :: post) := by simpa using hv.toLaid
    have hmem : c ∈ pre ++ [b] ++ post := by
      simp only [List.mem_append, List.mem_singleton] at hc ⊢
      exact hc.elim (fun hc => Or.inl (Or.inl hc)) Or.inr
    obtain ⟨_, _, hd⟩ := hv.get_header hmem
    refine ⟨c, hmem, ?_, by simp [hd.isFree, hf], hd.size ▸ hs⟩
    intro he
    rcases List.mem_append.mp hc with hc | hc
    · have := hv₁.around.1 c hc
      simp only [Blk.stop, blockSize] at this
      omega
    · have := hv₁.around.2.1 c hc
      simp only [Blk.stop, blockSize] at this
      omega

lemma givesBack_iff (hv : Valid h bs) (hn : n ≠ 0) (hfit : HasFit h n) :
    GivesBack h n ↔ ∃ a, firstFree h n = some a ∧ TailKept h n a := by
  obtain ⟨pre, b, post, h₁, rfl, hb, hno, e, hv', hbrk⟩ := malloc_free_spec hv hn (hv.hasFit_iff.mp hfit)
  obtain ⟨_, _, hd⟩ := hv.get_header (b := b) (by simp)
  have hsize : ∀ m, HasFit h m → m + blockSize ≤ h.brk := by
    intro m hm
    obtain ⟨x, hx, -, hxm⟩ := hv.hasFit_iff.mp hm
    have := (hv.inside x hx).2
    simp only [Blk.stop] at this
    omega
  have hafter : GivesBack h n ↔
      ∀ m, m ≠ 0 → HasFit h m → HasFit (mmFree b.data h₁) m ∨ m + blockSize ≤ slack (mmFree b.data h₁) := by
    have hlast : ∃ xs l, pre ++ [kept b n] ++ post = xs ++ [l] := by
      rcases List.eq_nil_or_concat (pre ++ [kept b n] ++ post) with hnil | ⟨xs, l, he⟩
      · simp at hnil
      · exact ⟨xs, l, by rw [he, List.concat_eq_append]⟩
    obtain ⟨xs, l, he⟩ := hlast
    have hvl := he ▸ hv'
    have hserve : ∀ m, m ≠ 0 → HasFit h m → (ServedWithin (mmFree b.data h₁) m ↔
        HasFit (mmFree b.data h₁) m ∨ m + blockSize ≤ slack (mmFree b.data h₁)) := fun m hm hmf =>
      servedWithin_iff hvl hm (hbrk ▸ hsize m hmf)
    constructor
    · rintro ⟨p, h₂, e', hall⟩ m hm hmf
      obtain ⟨rfl, rfl⟩ := Prod.mk.inj (Option.some_injective _ (e.symm.trans e'))
      exact (hserve m hm hmf).mp (hall m hm hmf)
    · exact fun hall => ⟨b.data, h₁, e, fun m hm hmf => (hserve m hm hmf).mpr (hall m hm hmf)⟩
  have hother : ∀ m, (∃ c ∈ pre ++ post, Fits m c) → HasFit (mmFree b.data h₁) m := by
    rintro m ⟨c, hc, hcm⟩
    refine hv'.hasFit_iff.mpr ⟨c, ?_, hcm⟩
    simp only [List.mem_append, List.mem_singleton] at hc ⊢
    exact hc.elim (fun hc => Or.inl (Or.inl hc)) Or.inr
  simp only [firstFree_found hv hb hno, Option.some.injEq, exists_eq_left', TailKept, hd.size, exists_other_iff hv]
  rw [hafter]
  by_cases hs : blockSize ≤ b.size - n
  · -- the rest of `b` was split off and merged again
    have hkept : kept b n = b := if_pos hs
    refine iff_of_true (fun m hm hmf => Or.inl ?_) (Or.inr (Or.inl ?_))
    · rw [hkept] at hv'
      exact hv'.hasFit_iff.mpr (hv.hasFit_iff.mp hmf)
    · simp only [blockSize] at *
      omega
  have hkept : kept b n = ⟨b.addr, n, true⟩ := if_neg hs
  rw [hkept] at hv'
  rw [← slack_kept hv hv' hbrk hb.2]
  constructor
  · intro hall
    have hself : HasFit h b.size := hv.hasFit_iff.mpr ⟨b, by simp, hb.1, le_rfl⟩
    rcases hall b.size (by have := hb.2; omega) hself with hf | hf
    · obtain ⟨c, hc, hcf, hcs⟩ := hv'.hasFit_iff.mp hf
      simp only [List.mem_append, List.mem_singleton] at hc
      rcases hc with (hc | rfl) | hc
      · exact Or.inr (Or.inr (Or.inl ⟨c, by simp [hc], hcf, hcs⟩))
      · exact Or.inl (le_antisymm hcs hb.2)
      · exact Or.inr (Or.inr (Or.inl ⟨c, by simp [hc], hcf, hcs⟩))
    · exact Or.inr (Or.inr (Or.inr hf))
  · intro hcond m hm hmf
    obtain ⟨x, hx, hxf, hxm⟩ := hv.hasFit_iff.mp hmf
    simp only [List.mem_append, List.mem_singleton] at hx
    rcases hx with (hx | rfl) | hx
    · exact Or.inl (hother m ⟨x, by simp [hx], hxf, hxm⟩)
    · rcases hcond with hc | hc | ⟨c, hc, hcf, hcs⟩ | hc
      · exact Or.inl (hv'.hasFit_iff.mpr ⟨⟨x.addr, n, true⟩, by simp, rfl, hxm.trans hc.le⟩)
      · simp only [blockSize] at *
        omega
      · exact Or.inl (hother m ⟨c, hc, hcf, hxm.trans hcs⟩)
      · exact Or.inr (by omega)
    · exact Or.inl (hother m ⟨x, by simp [hx], hxf, hxm⟩)

end

/-- After any run whose requests are all handled, a block taken from a free one and freed gives everything back
exactly when no tail of it is lost. -/
theorem free_gives_back_iff (h : Heap) (ops : List Op) (hu : Untouched h)
    (ha : AllOk Session.step (Op.Allowed Handled) (Session.start h) ops) :
    ∃ s, play Session.step (Session.start h) ops = some s ∧ ∀ n, n ≠ 0 → HasFit s.heap n →
      (GivesBack s.heap n ↔ ∃ a, firstFree s.heap n = some a ∧ TailKept s.heap n a) := by
  obtain ⟨s, e, -, bs, ho⟩ := hu.run ha
  exact ⟨s, e, fun n hn hfit => givesBack_iff ho.valid hn hfit⟩

theorem free_gives_back_iff_page : ∃ s, play Session.step (Session.start pageHeap) pageOps = some s ∧
    ∀ n, n ≠ 0 → HasFit s.heap n →
      (GivesBack s.heap n ↔ ∃ a, firstFree s.heap n = some a ∧ TailKept s.heap n a) :=
  free_gives_back_iff pageHeap pageOps untouched_pageHeap (by decide)

theorem tail_is_lost : ∃ s,
    play Session.step (Session.start pageHeap) [.malloc 100, .malloc 8, .free 4136] = some s ∧ HasFit s.heap 90 ∧
      ¬ GivesBack s.heap 90 := by
  -- of a free block of 100 bytes, 10 are gone once 90 were allocated and freed
  have ha : AllOk Session.step (Op.Allowed Handled) (Session.start pageHeap) [.malloc 100, .malloc 8,
    .free 4136] := by
    decide
  obtain ⟨s, e, -, bs, ho⟩ := untouched_pageHeap.run ha
  have hfit : HasFit s.heap 90 := by
    cases e
    decide
  have hno : ∀ a ∈ firstFree s.heap 90, ¬ TailKept s.heap 90 a := by
    cases e
    decide
  refine ⟨s, e, hfit, ?_⟩
  rw [givesBack_iff ho.valid (by decide) hfit]
  rintro ⟨a, ha, hkept⟩
  exact hno a ha hkept

end CourseArchive.MmAlloc
