import CourseArchive.MmAlloc.Malloc

/-! `mm_free` and `mm_realloc` keep the heap well formed. -/

namespace CourseArchive.MmAlloc

open Lib Heap

lemma Laid.flag {h h' : Heap} {pre post : List Blk} {t : Blk} (hv : Laid h (pre ++ [t] ++ post))
    (w : Wrote h h' t.addr .isFree 1) : Laid h' (pre ++ [{ t with free := true }] ++ post) := by
  have hv' : Laid h (pre ++ t :: post) := by simpa using hv
  obtain ⟨hpre, hpost, -⟩ := hv'.around
  have hd := hv'.header
  have hl := (linked_append pre (t :: post)).mp hv'.linked
  refine hv.replace ?_ (fun _ => rfl) (List.pairwise_singleton _ _) ?_ w.globals
  · intro c hc
    obtain rfl := List.mem_singleton.mp hc
    exact ⟨t, by simp, t, by simp, le_rfl, le_rfl⟩
  · rw [linked_append, linked_append]
    refine ⟨⟨hl.1.frame ?_, ⟨?_, ?_, ?_, ?_, ?_⟩, trivial⟩, ?_⟩
    · intro x hx f
      have := hpre x hx
      exact w.apart x.addr f (by simp only [Apart, Blk.stop] at *; omega)
    · rw [w.other _ (by decide), hd.size]
    · rw [w.other _ (by decide), hd.next]
      rfl
    · rw [w.other _ (by decide), hd.prev]
    · rw [w.value]
      rfl
    · rw [w.other _ (by decide), hd.ptr]
      rfl
    · rw [lastAddr_append]
      apply hl.2.2.frame
      intro y hy f
      have := hpost y hy
      exact w.apart y.addr f (by simp only [Apart, Blk.stop] at *; omega)

def fuse (l t : Blk) : Blk := ⟨l.addr, t.stop - l.data, l.free⟩

structure Absorbed (h h' : Heap) (l q s : ℕ) : Prop where
  next : h'.get l .next = q
  size : h'.get l .size = s
  other : ∀ f, Field.next ≠ f → Field.size ≠ f → h'.get l f = h.get l f
  prev : q ≠ null → h'.get q .prev = l
  rest : q ≠ null → ∀ f, Field.prev ≠ f → h'.get q f = h.get q f
  apart : ∀ x, Apart l x → (q = null ∨ Apart q x) → SameHeader h h' x
  bytes : ∀ x, Outside l x → (q = null ∨ Outside q x) → h'.mem x = h.mem x
  globals : SameGlobals h h'

lemma Absorbed.data {h h₀ h' : Heap} {bs pre post : List Blk} {l c : Blk} {s : ℕ}
    (w : Absorbed h h' l.addr (headAddr null post) s) (hv : Laid h₀ bs) (hl : l ∈ bs) (hpost : bs = pre ++ post)
    (hc : c ∈ bs) : SameData h h' c := by
  intro x hx hx'
  apply w.bytes x (hv.data_outside hl hc hx hx')
  cases post with
  | nil => exact Or.inl rfl
  | cons y post => exact Or.inr (hv.data_outside (b := y) (by simp [hpost]) hc hx hx')

lemma Laid.absorb {h h' : Heap} {pre post : List Blk} {l t : Blk} (hv : Laid h (pre ++ [l, t] ++ post))
    (w : Absorbed h h' l.addr (headAddr null post) (fuse l t).size) :
    Laid h' (pre ++ [fuse l t] ++ post) := by
  have hl' : Laid h (pre ++ l :: t :: post) := by simpa using hv
  have ht' : Laid h ((pre ++ [l]) ++ t :: post) := by simpa using hv
  have hl := (linked_append pre (l :: t :: post)).mp hl'.linked
  have hlt : l.stop ≤ t.addr := hl'.around.2.1 t (by simp)
  have hpre := hl'.around.1
  have hpost := ht'.around.2.1
  have hcross := ht'.around.2.2.1
  have hpp := ht'.around.2.2.2.2
  have hstop : (fuse l t).stop = t.stop := by
    simp only [fuse, Blk.stop, Blk.data] at *
    omega
  refine hv.replace ?_ (fun _ => rfl) (List.pairwise_singleton _ _) ?_ w.globals
  · intro c hc
    obtain rfl := List.mem_singleton.mp hc
    exact ⟨l, by simp, t, by simp, le_rfl, hstop.le⟩
  · rw [linked_append, linked_append]
    refine ⟨⟨hl.1.frame ?_, ⟨w.size, w.next, ?_, ?_, ?_⟩, trivial⟩, ?_⟩
    · intro x hx
      have hxl := hpre x hx
      apply w.apart x.addr (by simp only [Apart, Blk.stop] at *; omega)
      cases post with
      | nil => exact Or.inl rfl
      | cons y post =>
        have := hcross x (by simp [hx]) y (by simp)
        exact Or.inr (by simp only [Apart, headAddr, Blk.stop] at *; omega)
    · exact (w.other _ (by decide) (by decide)).trans hl.2.1.prev
    · exact (w.other _ (by decide) (by decide)).trans hl.2.1.isFree
    · exact (w.other _ (by decide) (by decide)).trans hl.2.1.ptr
    · rw [lastAddr_append]
      cases post with
      | nil => trivial
      | cons y post =>
        have hy := hpost y (by simp)
        have hne : y.addr ≠ null := (hv.pos y (by simp)).ne'
        refine Linked.reprev hl.2.2.2 ?_ ?_
        · intro y' hy'
          obtain rfl := Option.some_injective _ hy'
          exact ⟨w.prev hne, w.rest hne⟩
        · intro x hx
          have hyx := (List.pairwise_cons.mp hpp).1 x hx
          apply w.apart x.addr
          · simp only [Apart, Blk.stop] at *
            omega
          · exact Or.inr (by simp only [Apart, headAddr, Blk.stop] at *; omega)

lemma fuse_size {l t : Blk} (hlt : l.stop ≤ t.addr) (ht : t.stop < 2 ^ 63) :
    add64 (sub64 t.data l.data) t.size = (fuse l t).size := by
  simp only [Blk.stop, blockSize] at *
  rw [sub64_of_le (by simp only [Blk.data, blockSize]; omega)
      (by simp only [Blk.data, blockSize, wordSize]; omega),
    add64_of_lt (by simp only [Blk.data, blockSize, wordSize]; omega)]
  simp only [fuse, Blk.data, Blk.stop, blockSize]
  omega

lemma absorb_steps {h : Heap} {pre post : List Blk} {l t : Blk} (hv : Laid h (pre ++ [l, t] ++ post)) :
    ∃ h₁ h₂ h₃, h.set l.addr .next (headAddr null post) = h₁ ∧
      (if headAddr null post ≠ null then h₁.set (headAddr null post) .prev l.addr else h₁) = h₂ ∧
      h₂.set l.addr .size (fuse l t).size = h₃ ∧
      Absorbed h h₃ l.addr (headAddr null post) (fuse l t).size ∧ h₂.get l.addr .ptr = l.data ∧
      ∀ x, Apart l.addr x → (headAddr null post = null ∨ Apart (headAddr null post) x) →
        SameHeader h h₁ x ∧ SameHeader h h₂ x := by
  have hl' : Laid h (pre ++ l :: t :: post) := by simpa using hv
  have ht' : Laid h ((pre ++ [l]) ++ t :: post) := by simpa using hv
  have hlt : l.stop ≤ t.addr := hl'.around.2.1 t (by simp)
  have hstop : t.stop < 2 ^ 63 := hv.stop_lt (by simp)
  have hq : headAddr null post < 2 ^ 64 ∧ (headAddr null post = null ∨ Apart l.addr (headAddr null post)) := by
    cases post with
    | nil => exact ⟨by decide, Or.inl rfl⟩
    | cons y post =>
      have hy := hv.stop_lt (b := y) (by simp)
      have hly := hl'.around.2.1 y (by simp)
      simp only [Apart, Blk.stop, headAddr] at *
      omega
  have hsize : (fuse l t).size < 2 ^ 64 := by
    simp only [fuse]
    omega
  obtain ⟨h₁, e₁, w₁⟩ := set_word h l.addr .next (headAddr null post) (by decide) hq.1
  obtain ⟨h₂, e₂, w₂⟩ := set_unless_null h₁ (headAddr null post) l.addr (by
    simp only [Blk.stop] at hlt hstop
    omega)
  obtain ⟨h₃, e₃, w₃⟩ := set_word h₂ l.addr .size (fuse l t).size (by decide) hsize
  have hsame : ∀ x, Apart l.addr x → (headAddr null post = null ∨ Apart (headAddr null post) x) →
      SameHeader h h₁ x ∧ SameHeader h h₂ x := by
    intro x hx hqx
    refine ⟨fun f => w₁.apart x f hx, fun f => ?_⟩
    rw [w₂.apart hqx, w₁.apart x f hx]
  have hown : ∀ f, h₂.get l.addr f = h₁.get l.addr f := w₂.apart (hq.2.imp_right Apart.symm)
  refine ⟨h₁, h₂, h₃, e₁, e₂, e₃, ⟨?_, w₃.value, ?_, ?_, ?_, ?_, ?_, ?_⟩, ?_, hsame⟩
  · rw [w₃.other _ (by decide), hown, w₁.value]
  · intro f hf hf'
    rw [w₃.other f hf', hown, w₁.other f hf]
  · intro hq0
    rw [w₃.apart _ _ (hq.2.resolve_left hq0), (w₂.wrote hq0).value]
  · intro hq0 f hf
    rw [w₃.apart _ _ (hq.2.resolve_left hq0), (w₂.wrote hq0).other f hf, w₁.apart _ _ (hq.2.resolve_left hq0)]
  · intro x hx hqx f
    rw [w₃.apart x f hx, (hsame x hx hqx).2 f]
  · intro x hx hqx
    rw [w₃.bytes x hx, w₂.bytes hqx, w₁.bytes x hx]
  · exact w₁.globals.trans (w₂.globals.trans w₃.globals)
  · rw [hown, w₁.other _ (by decide), hl'.header.ptr]

lemma mergeLeft_left_absorbed {h : Heap} {pre post : List Blk} {l t : Blk} (hv : Laid h (pre ++ [l, t] ++ post))
    (hr : ∀ r ∈ post.head?, r.free = false) :
    ∃ h', mergeLeft h t.addr = h' ∧ Absorbed h h' l.addr (headAddr null post) (fuse l t).size := by
  have ht' : Laid h ((pre ++ [l]) ++ t :: post) := by simpa using hv
  have hd := ht'.header
  rw [lastAddr_append] at hd
  have hlt : l.stop ≤ t.addr := ht'.around.1 l (by simp)
  have hpost := ht'.around.2.1
  obtain ⟨h₁, h₂, h₃, e₁, e₂, e₃, ha, hptr, hsame⟩ := absorb_steps hv
  have htl : Apart l.addr t.addr := Or.inl ((Nat.le_add_right _ _).trans hlt)
  have htq : headAddr null post = null ∨ Apart (headAddr null post) t.addr := by
    cases post with
    | nil => exact Or.inl rfl
    | cons y post => exact Or.inr (Or.inr ((Nat.le_add_right _ _).trans (hpost y (by simp))))
  obtain ⟨s₁, s₂⟩ := hsame t.addr htl htq
  have s₃ := ha.apart t.addr htl htq
  have hv' := hv.absorb ha
  refine ⟨h₃, ?_, ha⟩
  have hstay : ¬ (headAddr null post ≠ null ∧ h₃.get (headAddr null post) .isFree ≠ 0) := by
    rintro ⟨hq0, hfree⟩
    cases post with
    | nil => exact hq0 rfl
    | cons y post =>
      apply hfree
      rw [headAddr, hv'.header.isFree, hr y rfl]
      rfl
  simp only [mergeLeft, hd.prev, hd.next, lastAddr, e₁, s₁ _, e₂, s₂ _, hd.ptr, hd.size, hptr,
    fuse_size hlt (hv.stop_lt (by simp)), e₃, s₃ _, if_neg hstay]

lemma mergeLeft_left {h : Heap} {pre post : List Blk} {l t : Blk} (hv : Laid h (pre ++ [l, t] ++ post))
    (hr : ∀ r ∈ post.head?, r.free = false) :
    ∃ h', mergeLeft h t.addr = h' ∧ Laid h' (pre ++ [fuse l t] ++ post) ∧ SameGlobals h h' ∧
      ∀ c ∈ pre ++ [l, t] ++ post, SameData h h' c := by
  obtain ⟨h', e, ha⟩ := mergeLeft_left_absorbed hv hr
  exact ⟨h', e, hv.absorb ha, ha.globals, fun c hc => ha.data hv (by simp) rfl hc⟩

lemma mergeLeft_both_absorbed {h : Heap} {pre post : List Blk} {l t r : Blk}
    (hv : Laid h (pre ++ [l, t] ++ r :: post)) (hr : r.free = true) :
    ∃ h₃ h', mergeLeft h t.addr = h' ∧ Absorbed h h₃ l.addr r.addr (fuse l t).size ∧
      Absorbed h₃ h' l.addr (headAddr null post) (fuse (fuse l t) r).size := by
  have ht' : Laid h ((pre ++ [l]) ++ t :: r :: post) := by simpa using hv
  have hd := ht'.header
  rw [lastAddr_append] at hd
  have hlt : l.stop ≤ t.addr := ht'.around.1 l (by simp)
  have hpost := ht'.around.2.1
  obtain ⟨h₁, h₂, h₃, e₁, e₂, e₃, ha, hptr, hsame⟩ := absorb_steps hv
  have htl : Apart l.addr t.addr := Or.inl ((Nat.le_add_right _ _).trans hlt)
  obtain ⟨s₁, s₂⟩ := hsame t.addr htl (Or.inr (Or.inr ((Nat.le_add_right _ _).trans (hpost r (by simp)))))
  have s₃ := ha.apart t.addr htl (Or.inr (Or.inr ((Nat.le_add_right _ _).trans (hpost r (by simp)))))
  -- the second round, with the block behind `t`
  have hv₃ : Laid h₃ (pre ++ [fuse l t, r] ++ post) := by simpa using hv.absorb ha
  have hr₃ : Laid h₃ ((pre ++ [fuse l t]) ++ r :: post) := by simpa using hv₃
  have hdr := hr₃.header
  have hlr : (fuse l t).stop ≤ r.addr := hr₃.around.1 _ (by simp)
  obtain ⟨h₄, h₅, h₆, e₄, e₅, e₆, ha', hptr', hsame'⟩ := absorb_steps hv₃
  have hpost' := hr₃.around.2.1
  have hq : ∀ x, x ≤ r.addr → headAddr null post = null ∨ Apart (headAddr null post) x := by
    intro x hx
    cases post with
    | nil => exact Or.inl rfl
    | cons y post =>
      have := hpost' y (by simp)
      exact Or.inr (Or.inr (by simp only [headAddr, Blk.stop] at *; omega))
  have htr : t.addr ≤ r.addr := by
    have := hpost r (by simp)
    simp only [Blk.stop] at this
    omega
  obtain ⟨s₄, s₅⟩ := hsame' t.addr htl (hq _ htr)
  have hlr' : Apart (fuse l t).addr r.addr := Or.inl ((Nat.le_add_right _ _).trans hlr)
  obtain ⟨u₄, u₅⟩ := hsame' r.addr hlr' (hq _ le_rfl)
  have hrne : r.addr ≠ null := (hv.pos r (by simp)).ne'
  have hgo : r.addr ≠ null ∧ h₃.get r.addr .isFree ≠ 0 := by
    refine ⟨hrne, ?_⟩
    rw [hdr.isFree, hr]
    decide
  refine ⟨h₃, h₆, ?_, ha, ha'⟩
  have hfl : (fuse l t).addr = l.addr := rfl
  have hnext : h.get t.addr .next = r.addr := hd.next
  have hprev : h.get t.addr .prev = l.addr := hd.prev
  have hsize := fuse_size hlt (hv.stop_lt (b := t) (by simp))
  have hsize' : add64 (sub64 r.data l.data) r.size = (fuse (fuse l t) r).size :=
    fuse_size (l := fuse l t) hlr (hv.stop_lt (by simp))
  rw [hfl] at e₄ e₅ e₆ hptr'
  rw [headAddr] at e₁ e₂
  simp only [mergeLeft, hnext, hprev, e₁, s₁ _, e₂, s₂ _, hd.ptr, hd.size, hptr, hsize, e₃]
  simp only [s₃ _, hnext, hprev, if_pos hgo, hdr.next, e₄, s₄ _, u₄ _, e₅, s₅ _, u₅ _, hdr.ptr, hdr.size]
  rw [hptr', show (fuse l t).data = l.data from rfl, hsize', e₆]

lemma mergeLeft_both {h : Heap} {pre post : List Blk} {l t r : Blk} (hv : Laid h (pre ++ [l, t] ++ r :: post))
    (hr : r.free = true) :
    ∃ h', mergeLeft h t.addr = h' ∧ Laid h' (pre ++ [fuse (fuse l t) r] ++ post) ∧ SameGlobals h h' ∧
      ∀ c ∈ pre ++ [l, t] ++ r :: post, SameData h h' c := by
  obtain ⟨h₃, h', e, ha, ha'⟩ := mergeLeft_both_absorbed hv hr
  have hv₃ : Laid h₃ (pre ++ [fuse l t, r] ++ post) := by simpa using hv.absorb ha
  refine ⟨h', e, hv₃.absorb ha', ha.globals.trans ha'.globals, fun c hc x hx hx' => ?_⟩
  have hsplit : pre ++ [l, t] ++ r :: post = pre ++ [l, t, r] ++ post := by simp
  have h₃₆ : SameData h₃ h' c := Absorbed.data (l := l) ha' hv (by simp) hsplit hc
  rw [h₃₆ x hx hx', ha.data hv (by simp) rfl hc x hx hx']

lemma mergeRight_absorbed {h : Heap} {pre post : List Blk} {t r : Blk} (hv : Laid h (pre ++ [t, r] ++ post))
    (ht : t.free = true) :
    ∃ h', mergeRight h t.addr = h' ∧ Absorbed h h' t.addr (headAddr null post) (fuse t r).size := by
  have ht' : Laid h (pre ++ t :: r :: post) := by simpa using hv
  have hr' : Laid h ((pre ++ [t]) ++ r :: post) := by simpa using hv
  have hd := ht'.header
  have hdr := hr'.header
  have hnext : h.get t.addr .next = r.addr := hd.next
  have htr : t.stop ≤ r.addr := hr'.around.1 t (by simp)
  have hpost := hr'.around.2.1
  have hrt : Apart t.addr r.addr := Or.inl ((Nat.le_add_right _ _).trans htr)
  have hq : headAddr null post < 2 ^ 64 ∧ (headAddr null post = null ∨ Apart t.addr (headAddr null post)) := by
    cases post with
    | nil => exact ⟨by decide, Or.inl rfl⟩
    | cons y post =>
      have hy := hv.stop_lt (b := y) (by simp)
      have hly := ht'.around.2.1 y (by simp)
      simp only [Apart, Blk.stop, headAddr] at *
      omega
  have hstop : r.stop < 2 ^ 63 := hv.stop_lt (by simp)
  have hsize : (fuse t r).size < 2 ^ 64 := by
    simp only [fuse]
    omega
  obtain ⟨h₁, e₁, w₁⟩ := set_flag h t.addr 1 (by decide)
  obtain ⟨h₂, e₂, w₂⟩ := set_word h₁ t.addr .size (fuse t r).size (by decide) hsize
  obtain ⟨h₃, e₃, w₃⟩ := set_word h₂ t.addr .next (headAddr null post) (by decide) hq.1
  obtain ⟨h₄, e₄, w₄⟩ := set_unless_null h₃ (headAddr null post) t.addr (by
    simp only [Blk.stop] at htr hstop
    omega)
  have hown : ∀ f, h₄.get t.addr f = h₃.get t.addr f := w₄.apart (hq.2.imp_right Apart.symm)
  have s₃ : ∀ x, Apart t.addr x → SameHeader h h₃ x := by
    intro x hx f
    rw [w₃.apart x f hx, w₂.apart x f hx, w₁.apart x f hx]
  refine ⟨h₄, ?_, ?_, ?_, ?_, ?_, ?_, ?_, ?_, ?_⟩
  · simp only [mergeRight, e₁, w₁.other .next (by decide), w₁.other .ptr (by decide), hnext, hd.ptr,
      w₁.apart r.addr _ hrt, hdr.ptr, hdr.size, fuse_size htr hstop, e₂, w₂.other .next (by decide),
      w₂.apart r.addr _ hrt, hdr.next, e₃, w₃.value, e₄]
  · rw [hown, w₃.value]
  · rw [hown, w₃.other _ (by decide), w₂.value]
  · intro f hf hf'
    rw [hown, w₃.other f hf, w₂.other f hf']
    by_cases hfree : Field.isFree = f
    · rw [← hfree, w₁.value, hd.isFree, ht]
      rfl
    · exact w₁.other f hfree
  · exact fun hq0 => (w₄.wrote hq0).value
  · intro hq0 f hf
    rw [(w₄.wrote hq0).other f hf, s₃ _ (hq.2.resolve_left hq0) f]
  · intro x hx hqx f
    rw [w₄.apart hqx, s₃ x hx f]
  · intro x hx hqx
    rw [w₄.bytes hqx, w₃.bytes x hx, w₂.bytes x hx, w₁.bytes x hx]
  · exact w₁.globals.trans (w₂.globals.trans (w₃.globals.trans w₄.globals))

lemma mergeRight_spec {h : Heap} {pre post : List Blk} {t r : Blk} (hv : Laid h (pre ++ [t, r] ++ post))
    (ht : t.free = true) :
    ∃ h', mergeRight h t.addr = h' ∧ Laid h' (pre ++ [fuse t r] ++ post) ∧ SameGlobals h h' ∧
      ∀ c ∈ pre ++ [t, r] ++ post, SameData h h' c := by
  obtain ⟨h', e, ha⟩ := mergeRight_absorbed hv ht
  exact ⟨h', e, hv.absorb ha, ha.globals, fun c hc => ha.data hv (by simp) rfl hc⟩

def Within (bs : List Blk) (a : ℕ) : Prop := ∃ b ∈ bs, b.addr = a ∨ (b.data ≤ a ∧ a + blockSize ≤ b.stop)

lemma findHead_within {h : Heap} {bs : List Blk} {a : ℕ} (hv : Laid h bs) (hw : Within bs a)
    (hptr : h.get a .ptr = a + blockSize) : findHead (a + blockSize) h = a := by
  obtain ⟨b, hb, hin⟩ := hw
  have hlt := hv.stop_lt hb
  have hle := (hv.inside b hb).2
  have hfirst := hv.first_le hb
  have hdata : h.get h.first .ptr = h.first + blockSize := by
    cases bs with
    | nil => cases hb
    | cons c bs =>
      have hc : h.first = c.addr := hv.first
      rw [hc]
      exact (show Laid h ([] ++ c :: bs) from hv).header.ptr
  simp only [Blk.data, Blk.stop, blockSize] at *
  have hsub : sub64 (a + 40) 40 = a :=
    (sub64_of_le (by omega) (by simp only [wordSize]; omega)).trans (Nat.add_sub_cancel _ _)
  have hadd : add64 a 40 = a + 40 := add64_of_lt (by simp only [wordSize]; omega)
  rw [findHead, if_neg (hv.first_ne_null hb), if_neg (by omega)]
  simp only [hsub, hadd, hptr, ne_eq, not_true_eq_false, if_false]

lemma findHead_spec {h : Heap} {bs : List Blk} {t : Blk} (hv : Laid h bs) (ht : t ∈ bs) :
    findHead t.data h = t.addr := by
  refine findHead_within hv ⟨t, ht, Or.inl rfl⟩ ?_
  obtain ⟨pre, post, rfl⟩ := List.append_of_mem ht
  exact hv.header.ptr

def joinRight (t : Blk) : List Blk → List Blk
  | [] => [t]
  | r :: post => if r.free then fuse t r :: post else t :: r :: post

def release (pre : List Blk) (t : Blk) (post : List Blk) : List Blk :=
  match pre.getLast? with
  | none => joinRight t post
  | some l => if l.free then pre.dropLast ++ joinRight (fuse l t) post else pre ++ joinRight t post

lemma release_left {pre post : List Blk} {l t : Blk} (hl : l.free = true) :
    release (pre ++ [l]) t post = pre ++ joinRight (fuse l t) post := by
  simp [release, hl]

lemma release_alone {pre post : List Blk} {t : Blk} (hl : ∀ l ∈ pre.getLast?, l.free = false) :
    release pre t post = pre ++ joinRight t post := by
  rcases List.eq_nil_or_concat pre with rfl | ⟨pre, l, rfl⟩
  · rfl
  · have := hl l (by simp)
    simp [release, this]

lemma joinRight_alone {post : List Blk} {t : Blk} (hr : ∀ r ∈ post.head?, r.free = false) :
    joinRight t post = t :: post := by
  cases post with
  | nil => rfl
  | cons r post => exact if_neg (by simp [hr r rfl])

lemma release_merged {pre post : List Blk} {t : Blk}
    (hm : (pre ++ t :: post).IsChain fun a b => ¬ (a.free = true ∧ b.free = true)) :
    (release pre { t with free := true } post).IsChain fun a b => ¬ (a.free = true ∧ b.free = true) := by
  have hright : ∀ t' : Blk, (joinRight t' post).IsChain (fun a b => ¬ (a.free = true ∧ b.free = true)) ∧
      ∀ x ∈ (joinRight t' post).head?, x.free = t'.free := by
    intro t'
    cases post with
    | nil => exact ⟨List.isChain_singleton _, by simp [joinRight]⟩
    | cons r post =>
      cases hr : r.free
      · simp_all [joinRight, List.isChain_append, List.isChain_cons]
      · simp_all [joinRight, List.isChain_append, List.isChain_cons, fuse]
  by_cases hl : ∃ l ∈ pre.getLast?, l.free = true
  · obtain ⟨l, hl, hlf⟩ := hl
    obtain ⟨pre, rfl⟩ := List.getLast?_eq_some_iff.mp hl
    have hpre := (List.isChain_append.mp (List.isChain_append.mp hm).1)
    rw [release_left hlf, List.isChain_append]
    refine ⟨hpre.1, (hright _).1, fun x hx y hy => ?_⟩
    rw [(hright _).2 y hy]
    exact hpre.2.2 x hx l rfl
  · have hl' : ∀ l ∈ pre.getLast?, l.free = false := by simpa using hl
    rw [release_alone hl', List.isChain_append]
    refine ⟨(List.isChain_append.mp hm).1, (hright _).1, fun x hx y hy => ?_⟩
    rw [hl' x hx]
    simp

lemma release_used {pre post : List Blk} {t c : Blk} (ht : t.free = true) :
    Used (release pre t post) c ↔ Used (pre ++ post) c := by
  have hright : ∀ (pre : List Blk) (t' : Blk), t'.free = true →
      (Used (pre ++ joinRight t' post) c ↔ Used (pre ++ post) c) := by
    intro pre t' ht'
    have hne : c.free = false → c ≠ t' := by
      rintro hc rfl
      simp [hc] at ht'
    cases post with
    | nil =>
      simp only [joinRight, Used, List.mem_append, List.mem_singleton, List.not_mem_nil]
      exact and_congr_left fun hc => or_congr_right (iff_false_intro (hne hc))
    | cons r post =>
      cases hr : r.free
      · simp only [joinRight, hr, Bool.false_eq_true, if_false, Used, List.mem_append, List.mem_cons]
        exact and_congr_left fun hc => by simp [hne hc]
      · have hcr : c.free = false → c ≠ r ∧ c ≠ fuse t' r := by
          intro hc
          constructor <;> rintro rfl
          · simp [hc] at hr
          · simp [fuse, ht'] at hc
        simp only [joinRight, hr, if_true, Used, List.mem_append, List.mem_cons]
        exact and_congr_left fun hc => by simp [hcr hc]
  by_cases hl : ∃ l ∈ pre.getLast?, l.free = true
  · obtain ⟨l, hl, hlf⟩ := hl
    obtain ⟨pre, rfl⟩ := List.getLast?_eq_some_iff.mp hl
    rw [release_left hlf, hright pre (fuse l t) hlf]
    simp only [Used, List.mem_append, List.mem_singleton]
    refine and_congr_left fun hc => ?_
    have hne : c ≠ l := by
      rintro rfl
      simp [hc] at hlf
    simp [hne]
  · rw [release_alone (by simpa using hl), hright _ _ ht]

lemma mmFree_cases {h : Heap} {pre post : List Blk} {t : Blk} (hv : Laid h (pre ++ t :: post))
    (hfree : t.free = false) :
    ∃ h₁, Wrote h h₁ t.addr .isFree 1 ∧ Laid h₁ (pre ++ [{ t with free := true }] ++ post) ∧
      ((∃ front l, pre = front ++ [l] ∧ l.free = true ∧ mmFree t.data h = mergeLeft h₁ t.addr) ∨
        (∀ l ∈ pre.getLast?, l.free = false) ∧
          ((∃ r rest, post = r :: rest ∧ r.free = true ∧ mmFree t.data h = mergeRight h₁ t.addr) ∨
            (∀ r ∈ post.head?, r.free = false) ∧ mmFree t.data h = h₁)) := by
  have hfind := findHead_spec hv (show t ∈ pre ++ t :: post by simp)
  have hpos := hv.pos t (by simp)
  have hd := hv.header
  have hflag : h.get t.addr .isFree = 0 := by
    rw [hd.isFree, hfree]
    rfl
  obtain ⟨h₁, e₁, w₁⟩ := set_flag h t.addr 1 (by decide)
  have hv₁ : Laid h₁ (pre ++ [{ t with free := true }] ++ post) :=
    Laid.flag (by simpa using hv) w₁
  refine ⟨h₁, w₁, hv₁, ?_⟩
  have hprev : h₁.get t.addr .prev = lastAddr null pre := (w₁.other _ (by decide)).trans hd.prev
  have hnext : h₁.get t.addr .next = headAddr null post := (w₁.other _ (by decide)).trans hd.next
  have hrun : mmFree t.data h =
      if lastAddr null pre ≠ null ∧ h₁.get (lastAddr null pre) .isFree ≠ 0 then mergeLeft h₁ t.addr
      else if headAddr null post ≠ null ∧ h₁.get (headAddr null post) .isFree ≠ 0 then mergeRight h₁ t.addr
      else h₁ := by
    have hdata : t.data ≠ null := by simp [Blk.data]
    rw [mmFree, if_neg hdata]
    simp only [hfind, if_neg hpos.ne', hflag, e₁, hprev, hnext, ne_eq, not_true_eq_false, if_false]
  have hleft : (lastAddr null pre ≠ null ∧ h₁.get (lastAddr null pre) .isFree ≠ 0) ↔
      ∃ l ∈ pre.getLast?, l.free = true := by
    rcases List.eq_nil_or_concat pre with rfl | ⟨pre, l, rfl⟩
    · simp [lastAddr]
    · have hl : Laid h₁ (pre ++ l :: ([{ t with free := true }] ++ post)) := by simpa using hv₁
      rw [List.concat_eq_append, lastAddr_append]
      simp only [lastAddr, hl.header.isFree, (hl.pos l (by simp)).ne', ne_eq, not_false_eq_true, true_and]
      cases hf : l.free <;> simp [hf]
  have hright : (headAddr null post ≠ null ∧ h₁.get (headAddr null post) .isFree ≠ 0) ↔
      ∃ r ∈ post.head?, r.free = true := by
    cases post with
    | nil => simp [headAddr]
    | cons r post =>
      simp only [headAddr, hv₁.header.isFree, (hv₁.pos r (by simp)).ne', ne_eq, not_false_eq_true, true_and]
      cases hf : r.free <;> simp [hf]
  by_cases hl : ∃ l ∈ pre.getLast?, l.free = true
  · rw [if_pos (hleft.mpr hl)] at hrun
    obtain ⟨l, hl, hlf⟩ := hl
    obtain ⟨front, rfl⟩ := List.getLast?_eq_some_iff.mp hl
    exact Or.inl ⟨front, l, rfl, hlf, hrun⟩
  · rw [if_neg (mt hleft.mp hl)] at hrun
    refine Or.inr ⟨by simpa using hl, ?_⟩
    by_cases hr : ∃ r ∈ post.head?, r.free = true
    · rw [if_pos (hright.mpr hr)] at hrun
      obtain ⟨r, hr, hrf⟩ := hr
      obtain ⟨rest, rfl⟩ := List.head?_eq_some_iff.mp hr
      exact Or.inl ⟨r, rest, rfl, hrf, hrun⟩
    · rw [if_neg (mt hright.mp hr)] at hrun
      exact Or.inr ⟨by simpa using hr, hrun⟩

lemma mmFree_release {h : Heap} {pre post : List Blk} {t : Blk} (hv : Laid h (pre ++ t :: post))
    (hfree : t.free = false) :
    Laid (mmFree t.data h) (release pre { t with free := true } post) ∧ SameGlobals h (mmFree t.data h) ∧
      ∀ c ∈ pre ++ t :: post, SameData h (mmFree t.data h) c := by
  obtain ⟨h₁, w₁, hv₁, hcases⟩ := mmFree_cases hv hfree
  have ht : t ∈ pre ++ t :: post := by simp
  have hdata : ∀ h', (∀ c ∈ pre ++ [{ t with free := true }] ++ post, SameData h₁ h' c) →
      ∀ c ∈ pre ++ t :: post, SameData h h' c := by
    intro h' hs c hc x hx hx'
    have hflag := w₁.bytes x (hv.data_outside ht hc hx hx')
    have hstep : ∃ d ∈ pre ++ [{ t with free := true }] ++ post, d.data = c.data ∧ d.stop = c.stop := by
      simp only [List.mem_append, List.mem_cons] at hc
      rcases hc with hc | rfl | hc
      · exact ⟨c, by simp [hc], rfl, rfl⟩
      · exact ⟨{ c with free := true }, by simp, rfl, rfl⟩
      · exact ⟨c, by simp [hc], rfl, rfl⟩
    obtain ⟨d, hd, hdata, hstop⟩ := hstep
    rw [hs d hd x (hdata ▸ hx) (hstop ▸ hx'), hflag]
  rcases hcases with ⟨front, l, rfl, hlf, e⟩ | ⟨hl, ⟨r, rest, rfl, hrf, e⟩ | ⟨hr, e⟩⟩
  · have hv₂ : Laid h₁ (front ++ [l, { t with free := true }] ++ post) := by simpa using hv₁
    rw [release_left hlf, e]
    by_cases hr : ∃ r ∈ post.head?, r.free = true
    · obtain ⟨r, hr, hrf⟩ := hr
      obtain ⟨post, rfl⟩ := List.head?_eq_some_iff.mp hr
      obtain ⟨h', e', hv', hg, hs⟩ := mergeLeft_both hv₂ hrf
      rw [e', joinRight, if_pos hrf]
      refine ⟨by simpa using hv', w₁.globals.trans hg, hdata h' ?_⟩
      simpa using hs
    · have hr' : ∀ r ∈ post.head?, r.free = false := by simpa using hr
      obtain ⟨h', e', hv', hg, hs⟩ := mergeLeft_left hv₂ hr'
      rw [e', joinRight_alone hr']
      refine ⟨by simpa using hv', w₁.globals.trans hg, hdata h' ?_⟩
      simpa using hs
  · have hv₂ : Laid h₁ (pre ++ [{ t with free := true }, r] ++ rest) := by simpa using hv₁
    obtain ⟨h', e', hv', hg, hs⟩ := mergeRight_spec hv₂ rfl
    rw [release_alone hl, e, e', joinRight, if_pos hrf]
    refine ⟨by simpa using hv', w₁.globals.trans hg, hdata h' ?_⟩
    simpa using hs
  · rw [release_alone hl, joinRight_alone hr, e]
    exact ⟨by simpa using hv₁, w₁.globals, hdata h₁ fun _ _ _ _ _ => rfl⟩

lemma Laid.eq_of_data {h : Heap} {bs : List Blk} (hv : Laid h bs) {b c : Blk} (hb : b ∈ bs) (hc : c ∈ bs)
    (hd : b.data = c.data) : b = c := by
  apply (hv.order hb hc).resolve_right
  simp only [Blk.data, Blk.stop, blockSize] at *
  omega

lemma Valid.inUse_erase {h : Heap} {bs bs' : List Blk} {t : Blk} (hv : Valid h bs) (ht : Used bs t)
    (hu : ∀ c, Used bs' c ↔ Used bs c ∧ c ≠ t) (p : ℕ) : InUse bs' p ↔ InUse bs p ∧ p ≠ t.data := by
  simp only [inUse_iff, hu]
  constructor
  · rintro ⟨b, ⟨hb, hne⟩, rfl⟩
    exact ⟨⟨b, hb, rfl⟩, fun hd => hne (hv.eq_of_data hb.1 ht.1 hd)⟩
  · rintro ⟨⟨b, hb, rfl⟩, hne⟩
    exact ⟨b, ⟨hb, fun hbt => hne (hbt ▸ rfl)⟩, rfl⟩

lemma mmFree_valid {h : Heap} {pre post : List Blk} {t : Blk} (hv : Valid h (pre ++ t :: post))
    (hfree : t.free = false) :
    Valid (mmFree t.data h) (release pre { t with free := true } post) ∧
      ∀ c, Used (release pre { t with free := true } post) c ↔ Used (pre ++ t :: post) c ∧ c ≠ t := by
  refine ⟨⟨(mmFree_release hv.toLaid hfree).1, release_merged hv.merged⟩, fun c => ?_⟩
  have hout : t ∉ pre ∧ t ∉ post := by
    have hno := hv.not_inUse
    exact ⟨fun hm => hno.1 ⟨t, hm, hfree, rfl⟩, fun hm => hno.2 ⟨t, hm, hfree, rfl⟩⟩
  rw [release_used rfl]
  simp only [Used, List.mem_append, List.mem_cons]
  constructor
  · rintro ⟨hc, hf⟩
    refine ⟨⟨hc.imp_right Or.inr, hf⟩, ?_⟩
    rintro rfl
    exact hc.elim hout.1 hout.2
  · rintro ⟨⟨hc | rfl | hc, hf⟩, hne⟩
    · exact ⟨Or.inl hc, hf⟩
    · exact (hne rfl).elim
    · exact ⟨Or.inr hc, hf⟩

lemma mmFree_spec {h : Heap} {bs : List Blk} {t : Blk} (hv : Valid h bs) (ht : Used bs t) :
    ∃ bs', Valid (mmFree t.data h) bs' ∧ SameGlobals h (mmFree t.data h) ∧
      (∀ c, Used bs' c ↔ Used bs c ∧ c ≠ t) ∧ ∀ c ∈ bs, SameData h (mmFree t.data h) c := by
  obtain ⟨pre, post, rfl⟩ := List.append_of_mem ht.1
  obtain ⟨-, hg, hd⟩ := mmFree_release hv.toLaid ht.2
  obtain ⟨hv', hu⟩ := mmFree_valid hv ht.2
  exact ⟨_, hv', hg, hu, hd⟩

end CourseArchive.MmAlloc
