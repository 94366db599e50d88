import CourseArchive.Lib.Repeats
import CourseArchive.MmAlloc.Sizes

/-! Freeing a block again, after other frees. -/

namespace CourseArchive.MmAlloc

open Lib Heap

def freeAll (h : Heap) (ps : List ℕ) : Heap := ps.foldl (fun h p => mmFree p h) h

structure KeepsMark (h h' : Heap) (a : ℕ) : Prop where
  ptr : h'.get a .ptr = h.get a .ptr
  free : h.get a .isFree ≠ 0 → h'.get a .isFree ≠ 0

variable {h h' : Heap} {bs pre post : List Blk} {t : Blk} {a b p : ℕ}

lemma KeepsMark.refl (h : Heap) (a : ℕ) : KeepsMark h h a := ⟨rfl, id⟩

lemma KeepsMark.trans {h'' : Heap} (k : KeepsMark h h' a) (k' : KeepsMark h' h'' a) : KeepsMark h h'' a :=
  ⟨k'.ptr.trans k.ptr, fun hf => k'.free (k.free hf)⟩

lemma SameHeader.keepsMark (hs : SameHeader h h' a) : KeepsMark h h' a :=
  ⟨hs _, fun hf => by rwa [hs]⟩

lemma Heap.Wrote.keepsMark (w : Wrote h h' b .isFree 1) (hb : b = a ∨ Apart b a) : KeepsMark h h' a := by
  rcases hb with rfl | hb
  · exact ⟨w.other _ (by decide), fun _ => by rw [w.value]; decide⟩
  · exact SameHeader.keepsMark fun f => w.apart a f hb

lemma Absorbed.keepsMark {l q s : ℕ} (w : Absorbed h h' l q s) (hl : l = a ∨ Apart l a)
    (hq : q = null ∨ q = a ∨ Apart q a) : KeepsMark h h' a := by
  rcases hl with rfl | hl
  · exact ⟨w.other _ (by decide) (by decide), fun hf => by rwa [w.other _ (by decide) (by decide)]⟩
  by_cases hq0 : q = null
  · exact SameHeader.keepsMark (w.apart a hl (Or.inl hq0))
  rcases hq.resolve_left hq0 with rfl | hqa
  · exact ⟨w.rest hq0 _ (by decide), fun hf => by rwa [w.rest hq0 _ (by decide)]⟩
  · exact SameHeader.keepsMark (w.apart a hl (Or.inr hqa))

def Clear (bs : List Blk) (a : ℕ) : Prop := ∀ c ∈ bs, c.addr = a ∨ Apart c.addr a

lemma Clear.head (hc : Clear bs a) (hsub : post ⊆ bs) :
    headAddr null post = null ∨ headAddr null post = a ∨ Apart (headAddr null post) a := by
  cases post with
  | nil => exact Or.inl rfl
  | cons y post => exact Or.inr (hc y (hsub List.mem_cons_self))

lemma Within.clear (hw : Within bs a) (hv : Laid h bs) : Clear bs a := by
  obtain ⟨b, hb, hin⟩ := hw
  intro c hc
  have horder := hv.order hc hb
  rcases hin with rfl | hin
  · rcases horder with rfl | hcb | hbc
    · exact Or.inl rfl
    · exact Or.inr (Or.inl ((Nat.le_add_right _ _).trans hcb))
    · exact Or.inr (Or.inr ((Nat.le_add_right _ _).trans hbc))
  · right
    simp only [Apart, Blk.data, Blk.stop] at *
    rcases horder with rfl | hcb | hbc
    · exact Or.inl hin.1
    · omega
    · omega

lemma mmFree_keepsMark (hv : Laid h (pre ++ t :: post)) (hfree : t.free = false) : ∃ h₁,
    Wrote h h₁ t.addr .isFree 1 ∧ ∀ a, Clear (pre ++ t :: post) a → KeepsMark h₁ (mmFree t.data h) a := by
  obtain ⟨h₁, w₁, hv₁, hcases⟩ := mmFree_cases hv hfree
  refine ⟨h₁, w₁, fun a ha => ?_⟩
  rcases hcases with ⟨front, l, rfl, -, e⟩ | ⟨-, ⟨r, rest, rfl, hrf, e⟩ | ⟨-, e⟩⟩
  · have hv₂ : Laid h₁ (front ++ [l, { t with free := true }] ++ post) := by simpa using hv₁
    have hl := ha l (by simp)
    rw [e]
    by_cases hr : ∃ r ∈ post.head?, r.free = true
    · obtain ⟨r, hr, hrf⟩ := hr
      obtain ⟨post, rfl⟩ := List.head?_eq_some_iff.mp hr
      obtain ⟨h₃, h', e', w, w'⟩ := mergeLeft_both_absorbed hv₂ hrf
      have hpost : post ⊆ front ++ [l] ++ t :: r :: post := fun x hx => by simp [hx]
      rw [show mergeLeft h₁ t.addr = h' from e']
      exact (w.keepsMark hl (Or.inr (ha r (by simp)))).trans (w'.keepsMark hl (ha.head hpost))
    · obtain ⟨h', e', w⟩ := mergeLeft_left_absorbed hv₂ (by simpa using hr)
      rw [show mergeLeft h₁ t.addr = h' from e']
      exact w.keepsMark hl (ha.head fun x hx => by simp [hx])
  · have hv₂ : Laid h₁ (pre ++ [{ t with free := true }, r] ++ rest) := by simpa using hv₁
    obtain ⟨h', e', w⟩ := mergeRight_absorbed hv₂ rfl
    rw [e, show mergeRight h₁ t.addr = h' from e']
    exact w.keepsMark (ha t (by simp)) (ha.head fun x hx => by simp [hx])
  · rw [e]
    exact KeepsMark.refl h₁ a

/-! A merge keeps every place of a header. -/

lemma within_append {xs ys : List Blk} : Within (xs ++ ys) a ↔ Within xs a ∨ Within ys a := by
  simp [Within, or_and_right, exists_or]

lemma within_cons {c : Blk} :
    Within (c :: bs) a ↔ (c.addr = a ∨ (c.data ≤ a ∧ a + blockSize ≤ c.stop)) ∨ Within bs a := by
  simp [Within]

lemma within_nil : ¬Within [] a := by simp [Within]

lemma within_fuse {l r : Blk} (hlr : l.stop ≤ r.addr) (hw : Within [l, r] a) : Within [fuse l r] a := by
  rw [within_cons, within_cons, or_iff_left within_nil] at hw
  refine within_cons.mpr (Or.inl ?_)
  simp only [fuse, Blk.data, Blk.stop, blockSize] at *
  omega

lemma within_joinRight (hpost : ∀ r ∈ post, t.stop ≤ r.addr) (hw : Within (t :: post) a) :
    Within (joinRight t post) a := by
  cases post with
  | nil => exact hw
  | cons r post =>
    rw [joinRight]
    split
    · show Within ([fuse t r] ++ post) a
      exact within_append.mpr ((within_append.mp (show Within ([t, r] ++ post) a from hw)).imp_left
        (within_fuse (hpost r List.mem_cons_self)))
    · exact hw

lemma within_release (hpre : ∀ l ∈ pre, l.stop ≤ t.addr) (hpost : ∀ r ∈ post, t.stop ≤ r.addr)
    (hw : Within (pre ++ t :: post) a) : Within (release pre t post) a := by
  by_cases hl : ∃ l ∈ pre.getLast?, l.free = true
  · obtain ⟨l, hl, hlf⟩ := hl
    obtain ⟨front, rfl⟩ := List.getLast?_eq_some_iff.mp hl
    have hlt : l.stop ≤ t.addr := hpre l (by simp)
    have hsplit : front ++ [l] ++ t :: post = front ++ ([l, t] ++ post) := by simp
    rw [hsplit, within_append, within_append] at hw
    rw [release_left hlf]
    refine within_append.mpr (hw.imp_right fun hw => within_joinRight (fun r hr => ?_) ?_)
    · have := hpost r hr
      simp only [fuse, Blk.stop, Blk.data] at *
      omega
    · exact within_append.mpr (hw.imp_left (within_fuse hlt))
  · rw [release_alone (by simpa using hl)]
    exact within_append.mpr ((within_append.mp hw).imp_right (within_joinRight hpost))

structure Spent (h : Heap) (bs : List Blk) (p : ℕ) : Prop where
  header : ∃ a, p = a + blockSize ∧ Within bs a ∧ h.get a .ptr = p ∧ h.get a .isFree ≠ 0

lemma Spent.mmFree_eq (hs : Spent h bs p) (hv : Laid h bs) : mmFree p h = h := by
  obtain ⟨a, rfl, hw, hptr, hfree⟩ := hs.header
  rw [mmFree, if_neg (by simp)]
  simp only [findHead_within hv hw hptr, if_pos hfree, ite_self]

lemma mmFree_spent (hv : Valid h bs) (ht : Used bs t) : ∃ bs', Valid (mmFree t.data h) bs' ∧
    (∀ c, Used bs' c ↔ Used bs c ∧ c ≠ t) ∧ Spent (mmFree t.data h) bs' t.data ∧
    ∀ p, Spent h bs p → Spent (mmFree t.data h) bs' p := by
  obtain ⟨pre, post, rfl⟩ := List.append_of_mem ht.1
  obtain ⟨hv', hu⟩ := mmFree_valid hv ht.2
  obtain ⟨h₁, w, hkeeps⟩ := mmFree_keepsMark hv.toLaid ht.2
  have hwithin : ∀ a, Within (pre ++ t :: post) a → Within (release pre { t with free := true } post) a := by
    intro a hw
    refine within_release (t := { t with free := true }) hv.around.1 hv.around.2.1 ?_
    rw [within_append, within_cons] at hw ⊢
    exact hw
  have hself : Within (pre ++ t :: post) t.addr := ⟨t, by simp, Or.inl rfl⟩
  refine ⟨_, hv', hu, ⟨t.addr, rfl, hwithin _ hself, ?_, ?_⟩, ?_⟩
  · rw [(hkeeps _ (hself.clear hv.toLaid)).ptr, w.other _ (by decide), hv.header.ptr]
  · refine (hkeeps _ (hself.clear hv.toLaid)).free ?_
    rw [w.value]
    decide
  · rintro p ⟨a, rfl, hw, hptr, hfree⟩
    have hclear := hw.clear hv.toLaid
    have hmark := (w.keepsMark (hclear t (by simp))).trans (hkeeps a hclear)
    exact ⟨a, rfl, hwithin a hw, hmark.ptr.trans hptr, hmark.free hfree⟩

lemma settling (bs : List Blk) : Settling (fun h p => mmFree p h) {p | InUse bs p} fun h freed =>
    ∃ bs', Valid h bs' ∧ (∀ p ∈ freed, Spent h bs' p) ∧ ∀ p, InUse bs p → p ∉ freed → InUse bs' p where
  first := by
    rintro h freed p ⟨bs', hv, hspent, hlive⟩ hp hnew
    obtain ⟨t, ht, rfl⟩ := inUse_iff.mp (hlive p hp hnew)
    obtain ⟨bs'', hv', hu, hself, hold⟩ := mmFree_spent hv ht
    refine ⟨bs'', hv', ?_, fun q hq hqnew => ?_⟩
    · rintro q (rfl | hq)
      · exact hself
      · exact hold q (hspent q hq)
    · rw [Set.mem_insert_iff, not_or] at hqnew
      exact (hv.inUse_erase ht hu q).mpr ⟨hlive q hq hqnew.2, hqnew.1⟩
  again := by
    rintro h freed p ⟨bs', hv, hspent, -⟩ hp
    exact (hspent p hp).mmFree_eq hv.toLaid

lemma Valid.freeAll_eraseDups (hv : Valid h bs) {ps : List ℕ} (hps : ∀ p ∈ ps, InUse bs p) :
    freeAll h ps = freeAll h ps.eraseDups :=
  (settling bs).foldl_eraseDups (D := ∅) ⟨bs, hv, nofun, fun _ hp _ => hp⟩ hps

/-- After any run whose requests are all handled, frees of live blocks leave the same heap when the repeated ones
among them are left out. -/
theorem double_free_harmless (h : Heap) (ops : List Op) (hu : Untouched h)
    (ha : AllOk Session.step (Op.Allowed Handled) (Session.start h) ops) :
    ∃ s, play Session.step (Session.start h) ops = some s ∧
      ∀ ps : List ℕ, (∀ p ∈ ps, (s.owned p).isSome) → freeAll s.heap ps = freeAll s.heap ps.eraseDups := by
  obtain ⟨s, e, -, bs, ho⟩ := hu.run ha
  refine ⟨s, e, fun ps hps => ho.valid.freeAll_eraseDups fun p hp => ?_⟩
  by_contra hno
  have hp := hps p hp
  rw [ho.holds.none_iff.mpr hno] at hp
  cases hp

theorem double_free_harmless_page :
    ∃ s, play Session.step (Session.start pageHeap) [.malloc 8, .malloc 8, .malloc 8] = some s ∧
    freeAll s.heap [4184, 4136, 4184, 4232, 4136, 4184] = freeAll s.heap [4184, 4136, 4232] := by
  obtain ⟨s, e, hs⟩ :=
    double_free_harmless pageHeap [.malloc 8, .malloc 8, .malloc 8] untouched_pageHeap (by decide)
  refine ⟨s, e, hs _ ?_⟩
  have hlive : ∀ s, play Session.step (Session.start pageHeap) [.malloc 8, .malloc 8, .malloc 8] = some s →
      ∀ p ∈ [4184, 4136, 4184, 4232, 4136, 4184], (s.owned p).isSome := by
    rintro s ⟨⟩
    decide
  exact hlive s e

end CourseArchive.MmAlloc
