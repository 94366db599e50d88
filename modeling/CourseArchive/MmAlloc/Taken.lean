import CourseArchive.MmAlloc.Sizes

/-! What a request finds and puts down, told from the heap in front of it. -/

namespace CourseArchive.MmAlloc

open Lib Heap

def NoRoom (h : Heap) (n : ℕ) : Prop :=
  ¬ HasFit h n ∧ slack h < add64 n blockSize ∧ (h.sbrk (add64 n blockSize - slack h)).2 = false

instance (h : Heap) (n : ℕ) : Decidable (NoRoom h n) := inferInstanceAs (Decidable (_ ∧ _))

def firstFree (h : Heap) (n : ℕ) : Option ℕ := (blocks h).find? fun a => h.get a .isFree ≠ 0 ∧ n ≤ h.get a .size

/-- The words that a request for `n` bytes puts down behind a first block: into the first free block that fits,
with a header for what is left of it, or else behind the last block. -/
def taken (h : Heap) (n : ℕ) : List Memory.Word :=
  match firstFree h n, (blocks h).getLast? with
  | some a, _ => reuseWords a (h.get a .size) (h.get a .next) n
  | none, some l => placeWords l (l + blockSize + h.get l .size) n
  | none, none => []

def NonzeroAt (h : Heap) (n x : ℕ) : Prop :=
  (∃ w ∈ taken h n, w.Covers x ∧ w.byte x ≠ 0) ∨ (∀ w ∈ taken h n, ¬ w.Covers x) ∧ h.mem x ≠ 0

instance (h : Heap) (n x : ℕ) : Decidable (NonzeroAt h n x) := inferInstanceAs (Decidable (_ ∨ _))

lemma reuseWords_apart {a s q n : ℕ} (hn : n ≤ s) (hq : q = null ∨ a + blockSize + s ≤ q) :
    (reuseWords a s q n).Pairwise Memory.Word.Apart := by
  by_cases hs : blockSize ≤ s - n
  · by_cases hq0 : q = null
    · simp only [reuseWords, splitWords, if_pos hs, if_pos hq0, List.cons_append, List.nil_append,
        List.pairwise_cons, List.forall_mem_cons, List.not_mem_nil, false_implies, implies_true, and_true,
        List.Pairwise.nil, Memory.Word.Apart, Field.word, Field.offset, Field.width, blockSize] at *
      omega
    · simp only [reuseWords, splitWords, if_pos hs, if_neg hq0, List.cons_append, List.nil_append,
        List.pairwise_cons, List.forall_mem_cons, List.not_mem_nil, false_implies, implies_true, and_true,
        List.Pairwise.nil, Memory.Word.Apart, Field.word, Field.offset, Field.width, blockSize] at *
      omega
  · simp [reuseWords, splitWords, if_neg hs, Memory.Word.Apart, Field.word, Field.offset, Field.width, blockSize]

lemma covers_splitWords {a s q n x : ℕ} {w : Memory.Word} (hw : w ∈ splitWords a s q n) (hcovers : w.Covers x) :
    blockSize ≤ s - n ∧ ((Field.next.word a 0).Covers x ∨ ¬ Outside (a + blockSize + n) x ∨
      q ≠ null ∧ (Field.prev.word q 0).Covers x) := by
  by_cases hs : blockSize ≤ s - n
  · refine ⟨hs, ?_⟩
    by_cases hq : q = null
    · simp only [splitWords, if_pos hs, if_pos hq, List.cons_append, List.nil_append, List.mem_cons,
        List.not_mem_nil, or_false] at hw
      rcases hw with rfl | rfl | rfl | rfl | rfl | rfl <;>
        simp only [Memory.Word.Covers, Outside, Field.word, Field.offset, Field.width, blockSize] at * <;>
        omega
    · simp only [splitWords, if_pos hs, if_neg hq, List.cons_append, List.nil_append, List.mem_cons,
        List.not_mem_nil, or_false] at hw
      rcases hw with rfl | rfl | rfl | rfl | rfl | rfl | rfl <;>
        simp only [Memory.Word.Covers, Outside, Field.word, Field.offset, Field.width, blockSize] at * <;>
        omega
  · rw [splitWords, if_neg hs] at hw
    cases hw

lemma reuse_clears {a s q n x : ℕ} (hq : q = null ∨ a + blockSize + s ≤ q) (hx : (Field.isFree.word a 0).Covers x)
    {w : Memory.Word} (hw : w ∈ reuseWords a s q n) (hcovers : w.Covers x) : w.byte x = 0 := by
  rcases List.mem_append.mp hw with hw | hw
  · rcases List.mem_cons.mp hw with rfl | hw
    · simp [Memory.Word.byte, Field.word]
    · have := covers_splitWords hw hcovers
      simp only [Memory.Word.Covers, Outside, Field.word, Field.offset, Field.width, blockSize] at *
      omega
  · simp only [List.mem_cons, List.not_mem_nil, or_false] at hw
    rcases hw with rfl | rfl <;>
      simp only [Memory.Word.Covers, Field.word, Field.offset, Field.width, blockSize] at * <;>
      omega

lemma placeWords_apart {l e n : ℕ} (hl : l + blockSize ≤ e) : (placeWords l e n).Pairwise Memory.Word.Apart := by
  simp only [placeWords, List.pairwise_cons, List.forall_mem_cons, List.not_mem_nil, false_implies, implies_true,
    and_true, List.Pairwise.nil, Memory.Word.Apart, Field.word, Field.offset, Field.width, blockSize] at *
  omega

section

variable {h : Heap} {bs pre post : List Blk} {b c l : Blk} {n x : ℕ}

lemma Valid.firstFree_eq (hv : Valid h bs) :
    firstFree h n = (bs.find? fun b => decide (Fits n b)).map Blk.addr := by
  rw [firstFree, hv.blocks_eq, List.find?_map]
  refine congrArg (Option.map Blk.addr) (List.find?_congr fun b hb => ?_)
  obtain ⟨p, q, hd⟩ := hv.get_header hb
  exact decide_eq_decide.mpr (by rw [ne_eq, hd.isFree_iff, hd.size, Fits, Bool.not_eq_false])

lemma firstFree_found (hv : Valid h (pre ++ [b] ++ post)) (hb : Fits n b) (hno : ∀ x ∈ pre, ¬ Fits n x) :
    firstFree h n = some b.addr := by
  rw [hv.firstFree_eq, List.append_assoc, List.find?_append, List.find?_eq_none.mpr (by simpa using hno)]
  simp [hb]

lemma firstFree_missing (hv : Valid h bs) (hno : ∀ b ∈ bs, ¬ Fits n b) : firstFree h n = none := by
  rw [hv.firstFree_eq, List.find?_eq_none.mpr (by simpa using hno)]
  rfl

lemma taken_found (hv : Valid h (pre ++ [b] ++ post)) (hb : Fits n b) (hno : ∀ x ∈ pre, ¬ Fits n x) :
    taken h n = reuseWords b.addr b.size (headAddr null post) n := by
  have hd : Header h (lastAddr null pre) (headAddr null post) b :=
    Laid.header (show Laid h (pre ++ b :: post) by simpa using hv.toLaid)
  simp only [taken, firstFree_found hv hb hno, hd.size, hd.next]

lemma taken_missing (hv : Valid h (pre ++ [l])) (hno : ∀ b ∈ pre ++ [l], ¬ Fits n b) :
    taken h n = placeWords l.addr l.stop n := by
  have hlast : (blocks h).getLast? = some l.addr := by
    rw [hv.blocks_eq, List.map_append, List.map_singleton, List.getLast?_concat]
  simp only [taken, firstFree_missing hv hno, hlast, hv.header.size]
  rfl

lemma taken_apart (hv : Valid h bs) : (taken h n).Pairwise Memory.Word.Apart := by
  by_cases hfit : ∃ b ∈ bs, Fits n b
  · obtain ⟨x, hx, hxn⟩ := hfit
    rcases firstFit_spec (n := n) hv.linked hv.pos null wordSize hv.length_le with
      ⟨pre, b, post, rfl, hb, hno, -⟩ | ⟨hno, -⟩
    · rw [taken_found (by simpa using hv) hb hno]
      exact reuseWords_apart hb.2 (hv.next_beyond.imp_right And.left)
    · exact (hno x hx hxn).elim
  · have hno : ∀ b ∈ bs, ¬ Fits n b := by simpa using hfit
    rcases List.eq_nil_or_concat bs with rfl | ⟨pre, l, rfl⟩
    · rw [taken, hv.firstFree_eq, hv.blocks_eq]
      exact List.Pairwise.nil
    · rw [List.concat_eq_append] at hv hno
      rw [taken_missing hv hno]
      exact placeWords_apart (Nat.le_add_right _ _)

lemma nonzeroAt_iff (hv : Valid h bs) (x : ℕ) : NonzeroAt h n x ↔ h.mem.writes (taken h n) x ≠ 0 :=
  (Memory.writes_ne_zero_iff (taken_apart hv)).symm

lemma reuse_misses (hv : Valid h (pre ++ [b] ++ post)) (hn : n ≤ b.size) (hc : c ∈ pre ++ [b] ++ post)
    (hne : c ≠ b) (hx : (Field.isFree.word c.addr 0).Covers x) :
    ∀ w ∈ reuseWords b.addr b.size (headAddr null post) n, ¬ w.Covers x := by
  have hbc := (hv.order hc (c := b) (by simp)).resolve_left hne
  have hlink : headAddr null post = null ∨ headAddr null post = c.addr ∨ Apart (headAddr null post) c.addr := by
    cases post with
    | nil => exact Or.inl rfl
    | cons y post =>
      rcases hv.order hc (c := y) (by simp) with rfl | hle | hle
      · exact Or.inr (Or.inl rfl)
      · exact Or.inr (Or.inr (Or.inr ((Nat.le_add_right _ _).trans hle)))
      · exact Or.inr (Or.inr (Or.inl ((Nat.le_add_right _ _).trans hle)))
  intro w hw hcovers
  rcases List.mem_append.mp hw with hw | hw
  · rcases List.mem_cons.mp hw with rfl | hw
    · simp only [Memory.Word.Covers, Blk.stop, Field.word, Field.offset, Field.width, blockSize] at *
      omega
    · have := covers_splitWords hw hcovers
      simp only [Memory.Word.Covers, Outside, Apart, Blk.stop, Field.word, Field.offset, Field.width,
        blockSize] at *
      omega
  · simp only [List.mem_cons, List.not_mem_nil, or_false] at hw
    rcases hw with rfl | rfl <;>
      simp only [Memory.Word.Covers, Blk.stop, Field.word, Field.offset, Field.width, blockSize] at * <;>
      omega

lemma place_misses (hv : Valid h (pre ++ [l])) (hc : c ∈ pre ++ [l])
    (hx : (Field.isFree.word c.addr 0).Covers x) : ∀ w ∈ placeWords l.addr l.stop n, ¬ w.Covers x := by
  have hlast : c = l ∨ c.stop ≤ l.addr := by
    rcases List.mem_append.mp hc with hpre | hlast
    · exact Or.inr (hv.around.1 c hpre)
    · exact Or.inl (List.mem_singleton.mp hlast)
  rcases hlast with rfl | hle
  · simp only [placeWords, List.forall_mem_cons, List.not_mem_nil, false_implies, implies_true, and_true,
      Memory.Word.Covers, Blk.stop, Field.word, Field.offset, Field.width, blockSize] at *
    omega
  · simp only [placeWords, List.forall_mem_cons, List.not_mem_nil, false_implies, implies_true, and_true,
      Memory.Word.Covers, Blk.stop, Field.word, Field.offset, Field.width, blockSize] at *
    omega

lemma nonzeroAt_of_misses (h₀ : ∀ w ∈ taken h n, ¬ w.Covers x) : NonzeroAt h n x ↔ h.mem x ≠ 0 := by
  constructor
  · rintro (⟨w, hw, hcovers, -⟩ | ⟨-, hmem⟩)
    · exact absurd hcovers (h₀ w hw)
    · exact hmem
  · exact fun hmem => Or.inr ⟨h₀, hmem⟩

/-- Of the flags of the blocks on the list a request changes that of the block it reuses, and no other. -/
lemma Valid.nonzeroAt_listed (hv : Valid h bs) (hc : c ∈ bs) (hx : (Field.isFree.word c.addr 0).Covers x) :
    NonzeroAt h n x ↔ firstFree h n ≠ some c.addr ∧ h.mem x ≠ 0 := by
  by_cases hfit : ∃ b ∈ bs, Fits n b
  · obtain ⟨y, hy, hyn⟩ := hfit
    rcases firstFit_spec (n := n) hv.linked hv.pos null wordSize hv.length_le with
      ⟨pre, b, post, rfl, hb, hno, -⟩ | ⟨hno, -⟩
    · have hv' : Valid h (pre ++ [b] ++ post) := by simpa using hv
      have htaken := taken_found hv' hb hno
      rw [firstFree_found hv' hb hno]
      by_cases he : c = b
      · subst he
        refine iff_of_false ?_ fun hne => hne.1 rfl
        rw [NonzeroAt, htaken]
        rintro (⟨w, hw, hcovers, hne⟩ | ⟨hmiss, -⟩)
        · exact hne (reuse_clears (hv.next_beyond.imp_right And.left) hx hw hcovers)
        · exact hmiss _ List.mem_cons_self hx
      · have hne : some b.addr ≠ some c.addr := by
          intro hab
          refine he (hv.eq_of_data hc (by simp) ?_)
          rw [Blk.data, Blk.data, Option.some.inj hab]
        rw [nonzeroAt_of_misses (htaken ▸ reuse_misses hv' hb.2 (by simpa using hc) he hx), and_iff_right hne]
    · exact (hno y hy hyn).elim
  · have hno : ∀ b ∈ bs, ¬ Fits n b := by simpa using hfit
    rcases List.eq_nil_or_concat bs with rfl | ⟨pre, l, rfl⟩
    · cases hc
    · rw [List.concat_eq_append] at hv hno hc
      rw [nonzeroAt_of_misses (taken_missing hv hno ▸ place_misses hv hc hx), firstFree_missing hv hno]
      simp

lemma append_short_iff {s : ℕ} (hs : s ≤ h.brk) (hbrk : blockSize ≤ h.brk) (hlt : h.brk < 2 ^ 63)
    (hn : n < wordSize) (hr : n + blockSize ≤ h.brk ∨ wordSize ≤ n + blockSize) :
    s > sub64 (sub64 h.brk n) blockSize ↔ h.brk - s < add64 n blockSize := by
  simp only [sub64, add64, blockSize, wordSize] at *
  omega

lemma Refused.noRoom (hn : n < wordSize) (hw : wordSize ≤ n + blockSize) (hfit : ¬ HasFit h n) (hr : Refused h n) :
    NoRoom h n := by
  have hadd : add64 n blockSize = n + blockSize - wordSize := by
    simp only [add64, blockSize, wordSize] at *
    omega
  rw [NoRoom, hadd]
  exact ⟨hfit, hr⟩

lemma NoRoom.refused (hv : Valid h bs) (hn0 : n ≠ 0) (hh : Handled h n) (hr : NoRoom h n) :
    ∃ h', mmMalloc n h = some (null, h') := by
  obtain ⟨hfit, hshort, hno⟩ := hr
  have hsize := hh.2.resolve_left hfit
  rw [hv.hasFit_iff] at hfit
  rcases List.eq_nil_or_concat bs with rfl | ⟨pre, l, rfl⟩
  · rw [slack_nil hv, Nat.sub_zero] at hno
    obtain ⟨h₀, e₀, -⟩ := sbrk_refused hv.bounds.2 hno
    exact ⟨_, by rw [mmMalloc_first hv hn0, e₀]⟩
  · rw [List.concat_eq_append] at hv hfit
    have hl := hv.inside l (by simp)
    have hbrk := hv.brk_lt
    have hfirst : h.first ≠ null := hv.first_ne_null (b := l) (by simp)
    have hwrap : n + blockSize ≤ h.brk ∨ wordSize ≤ n + blockSize := by
      rcases hsize with hs | hs | hs
      · exact Or.inl hs
      · exact (hfirst hs.1).elim
      · have := hs.1
        simp only [blockSize, wordSize] at *
        omega
    rw [slack_append hv] at hshort hno
    have hgt : l.stop > sub64 (sub64 h.brk n) blockSize := by
      apply (append_short_iff hl.2 _ hbrk hh.1 hwrap).mpr hshort
      simp only [Blk.stop] at hl
      omega
    have hneed : sub64 (add64 n blockSize) (h.brk - l.stop) = add64 n blockSize - (h.brk - l.stop) :=
      sub64_of_le hshort.le (Nat.mod_lt _ (by decide))
    obtain ⟨h₀, e₀, -⟩ := sbrk_refused hv.bounds.2 hno
    refine ⟨h₀, ?_⟩
    rw [mmMalloc_missing hv hn0 (fun b hb hf => hfit ⟨b, hb, hf⟩), append, (append_ends hv).1, (append_ends hv).2,
      if_pos hgt,
      hneed, e₀]

lemma mmMalloc_taken (hv : Valid h bs) (hn0 : n ≠ 0) (hh : Handled h n) :
    (∃ h', mmMalloc n h = some (null, h') ∧ NoRoom h n) ∨
      ∃ a h', mmMalloc n h = some (a + blockSize, h') ∧ (bs ≠ [] → h'.mem = h.mem.writes (taken h n)) := by
  have hbrk := hv.brk_lt
  by_cases hfit : ∃ b ∈ bs, Fits n b
  · obtain ⟨pre, b, post, h', rfl, hb, hno, e, -, -, hw⟩ := mmMalloc_found hv hn0 hfit
    exact Or.inr ⟨b.addr, h', e, fun _ => by rw [hw, taken_found hv hb hno]⟩
  have hno : ∀ b ∈ bs, ¬ Fits n b := by simpa using hfit
  have hnone : ¬ HasFit h n := hv.hasFit_iff.not.mpr hfit
  have hsize := hh.2.resolve_left hnone
  rcases List.eq_nil_or_concat bs with rfl | ⟨pre, l, rfl⟩
  · have hpos : slack h < add64 n blockSize := by
      rw [slack_nil hv]
      rcases hsize with hs | hs | hs
      · exact (add64_of_lt (a := n) (b := blockSize) (by simp only [wordSize]; omega)).symm ▸ Nat.succ_pos _
      · exact (add64_of_lt hs.2).symm ▸ Nat.succ_pos _
      · have := hs.1
        have := hh.1
        simp only [add64, blockSize, wordSize] at *
        omega
    rw [mmMalloc_first hv hn0]
    rcases e₀ : h.sbrk (add64 n blockSize) with ⟨h₀, _ | _⟩
    · refine Or.inl ⟨_, rfl, hnone, hpos, ?_⟩
      rw [slack_nil hv, Nat.sub_zero, e₀]
    · obtain ⟨h', e, -⟩ := newFirst_writes (h := { h₀ with first := h.brk }) hbrk hh.1
      exact Or.inr ⟨h.brk, h', congrArg some e, fun hne => (hne rfl).elim⟩
  · rw [List.concat_eq_append] at hv hno ⊢
    have hl := (hv.inside l (by simp)).2
    by_cases hle : n + blockSize ≤ h.brk
    · rw [mmMalloc_missing hv hn0 hno, taken_missing hv hno]
      by_cases hroom : l.stop + blockSize + n ≤ h.brk
      · obtain ⟨h', e, -, -, hw⟩ := append_room hv hroom
        exact Or.inr ⟨l.stop, h', congrArg some e, fun _ => hw⟩
      · rcases append_grow hv hle (by omega) with ⟨h', e, -, -, hw⟩ | ⟨h', e, -, hs⟩
        · exact Or.inr ⟨l.stop, h', congrArg some e, fun _ => hw⟩
        · refine Or.inl ⟨h', congrArg some e, hnone, ?_⟩
          rw [slack_append hv, add64_of_lt (by simp only [wordSize]; omega)]
          exact ⟨by omega, hs⟩
    · have hfirst : h.first ≠ null := hv.first_ne_null (b := l) (by simp)
      have hrefused := (hsize.resolve_left hle).resolve_left fun hs => hfirst hs.1
      have hroom : NoRoom h n := hrefused.noRoom hh.1 (by
        have := hrefused.1
        omega) hnone
      obtain ⟨h', e⟩ := hroom.refused hv hn0 hh
      exact Or.inl ⟨h', e, hroom⟩

end

end CourseArchive.MmAlloc
