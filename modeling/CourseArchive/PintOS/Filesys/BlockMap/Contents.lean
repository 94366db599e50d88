import CourseArchive.Lib.BlockArray
import CourseArchive.PintOS.Filesys.BlockMap.Usage

/-! The contents of an inode: lookup of a position, and the loops of `inode_read_at` and `inode_write_at`. -/

namespace CourseArchive.PintOS.Filesys

open Lib Function CachedDisk

structure Claims (u : Usage) (k : BlockSector) (L : Layout) : Prop where
  data : ∀ {i}, i < L.cnt → u.role (L.data i) = .data k i
  index : ∀ {j}, j < indexCnt L.cnt → u.role (L.index j) = .index k j
  indexed : L.Indexed u.flat

variable {s : Filesys} {u : Usage} {k : BlockSector} {L : Layout}

namespace Claims

lemma data_inj (h : Claims u k L) {i j : ℕ} (hi : i < L.cnt) (hj : j < L.cnt) (he : L.data i = L.data j) :
    i = j := by
  have hr := h.data hi
  rw [he, h.data hj] at hr
  cases hr
  rfl

lemma data_ne_index (h : Claims u k L) {i j : ℕ} (hi : i < L.cnt) (hj : j < indexCnt L.cnt) :
    L.data i ≠ L.index j := by
  intro he
  have hr := h.data hi
  rw [he, h.index hj] at hr
  cases hr

lemma frame (h : Claims u k L) {u' : Usage}
    (hu : ∀ x, (u.role x).owner = some k → u'.role x = u.role x ∧ u'.flat x = u.flat x) : Claims u' k L where
  data {i} hi := by
    have hr := h.data hi
    rw [(hu (L.data i) (by rw [hr]; rfl)).1, hr]
  index {j} hj := by
    have hr := h.index hj
    rw [(hu (L.index j) (by rw [hr]; rfl)).1, hr]
  indexed j w hw hc := by
    have hr := h.index (lt_indexCnt.mpr (by omega : 10 + 128 * j < L.cnt))
    rw [(hu (L.index j) (by rw [hr]; rfl)).2]
    exact h.indexed j w hw hc

end Claims

lemma chunkSize_eq {len size offset : ℕ} :
    chunkSize len size offset = min size (min (len - offset) (512 - offset % 512)) := by
  rw [chunkSize, blockSectorSize]
  congr 2
  omega

/-! The loops, for any invariant that one round keeps. -/

section Loops

variable {inode : InodeData} {length : ℕ}

lemma byteToSector_past {offset : ℕ} (ho : length ≤ offset) (s : Filesys) :
    byteToSector inode length offset s = .ok (0xffffffff, s) := by
  rw [byteToSector, if_pos (by exact_mod_cast ho)]
  rfl

lemma readFrom_loop {I : Filesys → Prop} (flat : BlockSector → Sector) (place : ℕ → BlockSector) {cnt : ℕ}
    (hround : ∀ {off n s}, I s → off < length → off / 512 < cnt → off % 512 + n ≤ blockSectorSize →
      Returns (byteToSector inode length off) s fun x t =>
        Returns (onDisk (cacheRead x (off % 512) n)) t fun bs v =>
          bs = (flat (place (off / 512))).slice (off % 512) n ∧ I v)
    (hlen : length ≤ 512 * cnt) {fuel size offset : ℕ} (hf : size ≤ fuel) (h : I s) :
    Returns (readFrom inode length fuel size offset) s fun bs t =>
      bs = bytesFrom flat place offset (min size (length - offset)) ∧ I t := by
  induction fuel generalizing s size offset with
  | zero =>
    obtain rfl : size = 0 := by omega
    exact Returns.pure ⟨by simp, h⟩
  | succ fuel ih =>
    rw [readFrom]
    by_cases hs : size = 0
    · rw [if_pos hs]
      exact Returns.pure ⟨by simp [hs], h⟩
    rw [if_neg hs, chunkSize_eq]
    by_cases ho : length ≤ offset
    · have hz : length - offset = 0 := by omega
      refine Returns.after (byteToSector_past ho s) ?_
      rw [if_pos (by omega)]
      exact Returns.pure ⟨by simp [hz], h⟩
    · obtain ⟨n, hn⟩ : ∃ n, n = min size (min (length - offset) (512 - offset % 512)) := ⟨_, rfl⟩
      rw [← hn]
      refine (hround (n := n) h (by omega) (by omega) (by simp only [blockSectorSize]; omega)).bind ?_
      intro x t hx
      rw [if_neg (by omega)]
      refine hx.bind ?_
      rintro bs v ⟨rfl, hv⟩
      refine (ih (by omega) hv).bind ?_
      rintro rest w ⟨rfl, hw⟩
      refine Returns.pure ⟨?_, hw⟩
      rw [slice_eq_bytesFrom (by simp only [blockSectorSize]; omega), ← bytesFrom_add]
      congr 1
      omega

lemma writeFrom_rounds {I : List UInt8 → Filesys → Prop} {offset : ℕ} (hl : inode.length = length)
    (hround : ∀ {done buf s}, I done s → offset + done.length < length →
      (offset + done.length) % 512 + buf.length ≤ blockSectorSize →
      Returns (byteToSector inode length (offset + done.length)) s fun x t =>
        Returns (onDisk (cacheWrite x ((offset + done.length) % 512) buf))
        { t with log := .dataWrite k x :: t.log } fun _ v =>
          I (done ++ buf) v)
    {fuel : ℕ} (buffer done : List UInt8) (hf : buffer.length ≤ fuel) (h : I done s) :
    Returns (writeFrom k inode fuel buffer (offset + done.length)) s fun n t =>
      n = min buffer.length (length - (offset + done.length)) ∧ I (done ++ buffer.take n) t := by
  induction fuel generalizing s buffer done with
  | zero =>
    obtain rfl : buffer = [] := List.length_eq_zero_iff.mp (by omega)
    exact Returns.pure ⟨by simp, by simpa using h⟩
  | succ fuel ih =>
    rw [writeFrom]
    by_cases hs : buffer = []
    · subst hs
      rw [if_pos rfl]
      exact Returns.pure ⟨by simp, by simpa using h⟩
    have hpos : 0 < buffer.length := List.length_pos_iff.mpr hs
    rw [if_neg hs, hl, chunkSize_eq]
    by_cases ho : length ≤ offset + done.length
    · refine Returns.after (byteToSector_past ho s) ?_
      rw [if_pos (by omega)]
      exact Returns.pure ⟨by omega, by simpa using h⟩
    · obtain ⟨n, hn⟩ :
        ∃ n, n = min buffer.length (min (length - (offset + done.length)) (512 - (offset + done.length) % 512)) :=
        ⟨_, rfl⟩
      have htake : (buffer.take n).length = n := by
        rw [List.length_take]
        omega
      rw [← hn]
      refine (hround h (by omega) (by rw [htake]; simp only [blockSectorSize]; omega)).bind ?_
      intro x t hx
      rw [if_neg (by omega)]
      refine Returns.modify_bind (hx.bind ?_)
      intro _ v hv
      have hoff : offset + (done ++ buffer.take n).length = offset + done.length + n := by
        rw [List.length_append, htake]
        omega
      have hrest := ih (buffer.drop n) (done ++ buffer.take n) (by rw [List.length_drop]; omega) hv
      rw [hoff] at hrest
      refine hrest.bind ?_
      rintro m w ⟨rfl, hw⟩
      refine Returns.pure ⟨?_, ?_⟩
      · rw [List.length_drop]
        omega
      · rwa [List.append_assoc, ← List.take_add] at hw

lemma writeFrom_loop {I : List UInt8 → Filesys → Prop} {offset : ℕ} (hl : inode.length = length)
    (hround : ∀ {done buf s}, I done s → offset + done.length < length →
      (offset + done.length) % 512 + buf.length ≤ blockSectorSize →
      Returns (byteToSector inode length (offset + done.length)) s fun x t =>
        Returns (onDisk (cacheWrite x ((offset + done.length) % 512) buf))
        { t with log := .dataWrite k x :: t.log } fun _ v =>
          I (done ++ buf) v)
    {fuel : ℕ} {buffer : List UInt8} (hf : buffer.length ≤ fuel) (h : I [] s) :
    Returns (writeFrom k inode fuel buffer offset) s fun n t =>
      n = min buffer.length (length - offset) ∧ I (buffer.take n) t :=
  writeFrom_rounds hl hround buffer [] hf h

end Loops

end CourseArchive.PintOS.Filesys
