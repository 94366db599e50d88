import CourseArchive.Bgp.RoundTrip

/-! Which bytes of a frame are read, and when they all lie in the frame. -/

namespace CourseArchive.Bgp

open Lib

namespace SimulatedMachine

/-! The offsets in the order of the reads. A received frame has a length of 16 bits, so that an `int` sum of them
overflows only after a read behind the end. -/

def detectReads (data : ℕ → UInt8) : List ℕ :=
  List.range' (14 + 20) 16 ++
    if (List.range 16).all fun k => data (14 + 20 + k) == 0xFF then [14 + 20 + 18] else [47]

def withdrawnReads (doff number : ℕ) : List ℕ :=
  (List.range number).flatMap (fun i => List.range' (doff + i * 5) 4 ++ [doff + (i + 1) * 5 - 1]) ++
  List.range' (14 + 2) 2

def hopReads (data : ℕ → UInt8) (off : ℕ) : List ℕ :=
  List.range' off 2 ++ (List.range (get16 data off).toNat).flatMap fun j => List.range' (off + (j + 1) * 2) 2

def pathReads (data : ℕ → UInt8) : ℕ → ℕ → List ℕ
  | 0, _ => []
  | number + 1, off => hopReads data off ++ pathReads data number (off + (2 + (get16 data off).toNat * 2))

def advertisementReads (data : ℕ → UInt8) (doff number : ℕ) : List ℕ :=
  let offset := (readPaths data number doff).2
  pathReads data number doff ++
    (List.range number).flatMap fun i => List.range' (offset + i * 5) 4 ++ [offset + (i + 1) * 5 - 1]

def updateReads (data : ℕ → UInt8) : List ℕ :=
  let wrl := (get16 data headerLength).toNat
  let tpal := (get16 data (headerLength + 2 + wrl)).toNat
  List.range' headerLength 2 ++ (if wrl ≠ 0 then withdrawnReads (headerLength + 2) (wrl / 5) else []) ++
    List.range' (headerLength + 2 + wrl) 2 ++
    if tpal ≠ 0 then advertisementReads data (headerLength + 4 + wrl) tpal else []

variable {n : ℕ}

def frameReads (m : SimulatedMachine n) (data : ℕ → UInt8) (i : Fin n) : List ℕ :=
  if (m.ifsmArray i).currentState = .idle then []
  else
    detectReads data ++
      if detectTypeOfPacket data = .update ∧
        (m.ifsmArray i).currentState = .established then updateReads data else []

/-! The bounds. -/

def countedLength (data : ℕ → UInt8) : ℕ :=
  let wrl := (get16 data headerLength).toNat
  let tpal := (get16 data (headerLength + 2 + wrl)).toNat
  headerLength + 4 + wrl +
  ((readPaths data tpal (headerLength + 4 + wrl)).1.map fun ases => 2 + ases.length * 2).sum + tpal * 5

structure Fits (frame : Buffer) : Prop where
  marker : 14 + 20 + 16 ≤ frame.length
  type : ((List.range 16).all fun k => frame.data (14 + 20 + k) == 0xFF) = true → headerLength ≤ frame.length
  update : detectTypeOfPacket frame.data = .update → countedLength frame.data ≤ frame.length

variable {data data' : ℕ → UInt8} {frame : Buffer} {off doff number : ℕ}

lemma length_readHops (data : ℕ → UInt8) (off : ℕ) : (readHops data off).length = (get16 data off).toNat := by
  rw [readHops, List.length_map, List.length_range]

lemma length_readPaths (data : ℕ → UInt8) (number off : ℕ) : (readPaths data number off).1.length = number := by
  induction number generalizing off with
  | zero => rfl
  | succ number ih => rw [readPaths, List.length_cons, ih]

lemma readPaths_snd (data : ℕ → UInt8) (number off : ℕ) :
    (readPaths data number off).2 =
    off + ((readPaths data number off).1.map fun ases => 2 + ases.length * 2).sum := by
  induction number generalizing off with
  | zero => rfl
  | succ number ih =>
    rw [readPaths, ih, List.map_cons, List.sum_cons, length_readHops]
    omega

lemma le_readPaths_snd (data : ℕ → UInt8) (number off : ℕ) : off ≤ (readPaths data number off).2 := by
  rw [readPaths_snd]
  omega

lemma lt_of_mem_hopReads {o : ℕ} (h : o ∈ hopReads data off) : o < off + (2 + (get16 data off).toNat * 2) := by
  simp only [hopReads, List.mem_append, List.mem_range'_1, List.mem_flatMap, List.mem_range] at h
  rcases h with h | ⟨j, hj, h⟩ <;> omega

lemma lt_of_mem_pathReads {o : ℕ} (h : o ∈ pathReads data number off) : o < (readPaths data number off).2 := by
  induction number generalizing off with
  | zero => exact absurd h List.not_mem_nil
  | succ number ih =>
    rcases List.mem_append.mp h with h | h
    · exact (lt_of_mem_hopReads h).trans_le (le_readPaths_snd data number _)
    · exact ih h

lemma countedLength_eq (data : ℕ → UInt8) : countedLength data =
    (readPaths data (get16 data (headerLength + 2 + (get16 data headerLength).toNat)).toNat
      (headerLength + 4 + (get16 data headerLength).toNat)).2 +
      (get16 data (headerLength + 2 + (get16 data headerLength).toNat)).toNat * 5 := by
  rw [readPaths_snd]
  rfl

lemma lt_of_mem_updateReads {o : ℕ} (h : o ∈ updateReads data) : o < countedLength data := by
  rw [countedLength_eq]
  have hle := le_readPaths_snd data (get16 data (headerLength + 2 + (get16 data headerLength).toNat)).toNat
    (headerLength + 4 + (get16 data headerLength).toNat)
  simp only [updateReads, List.mem_append] at h
  rcases h with ((h | h) | h) | h
  · rw [List.mem_range'_1] at h
    omega
  · split at h
    · simp only [withdrawnReads, List.mem_append, List.mem_flatMap, List.mem_range, List.mem_range'_1,
        List.mem_singleton] at h
      simp only [headerLength] at h hle ⊢
      rcases h with ⟨i, hi, h | h⟩ | h <;> omega
    · exact absurd h List.not_mem_nil
  · rw [List.mem_range'_1] at h
    omega
  · split at h
    · rcases List.mem_append.mp h with h | h
      · exact (lt_of_mem_pathReads h).trans_le (Nat.le_add_right _ _)
      · simp only [List.mem_flatMap, List.mem_append, List.mem_range, List.mem_range'_1, List.mem_singleton] at h
        obtain ⟨i, hi, h | h⟩ := h <;> omega
    · exact absurd h List.not_mem_nil

lemma mem_advertisementReads (data : ℕ → UInt8) (doff : ℕ) (h : number ≠ 0) :
    (readPaths data number doff).2 + number * 5 - 1 ∈ advertisementReads data doff number := by
  have hlast : number - 1 + 1 = number := Nat.sub_add_cancel (Nat.pos_of_ne_zero h)
  refine List.mem_append_right _ (List.mem_flatMap.mpr ⟨number - 1, List.mem_range.mpr (by omega), ?_⟩)
  refine List.mem_append_right _ (List.mem_singleton.mpr ?_)
  rw [hlast]

lemma exists_mem_updateReads (data : ℕ → UInt8) : ∃ o ∈ updateReads data, countedLength data ≤ o + 1 := by
  rw [countedLength_eq]
  by_cases htpal : (get16 data (headerLength + 2 + (get16 data headerLength).toNat)).toNat = 0
  · refine ⟨headerLength + 2 + (get16 data headerLength).toNat + 1, ?_, ?_⟩
    · simp only [updateReads, List.mem_append, List.mem_range'_1]
      exact .inl (.inr (by omega))
    · rw [htpal, readPaths]
      omega
  · have hlast := mem_advertisementReads data (headerLength + 4 + (get16 data headerLength).toNat) htpal
    refine ⟨_, ?_, Nat.le_add_of_sub_le le_rfl⟩
    simp only [updateReads, if_pos htpal]
    exact List.mem_append_right _ hlast

lemma frameReads_established (m : SimulatedMachine n) (data : ℕ → UInt8) (i : Fin n)
    (h : (m.ifsmArray i).currentState = .established) :
    m.frameReads data i =
      detectReads data ++ if detectTypeOfPacket data = .update then updateReads data else [] := by
  simp [frameReads, h]

lemma reads_lt_iff_fits (m : SimulatedMachine n) (frame : Buffer) (i : Fin n)
    (h : (m.ifsmArray i).currentState = .established) :
    (∀ o ∈ m.frameReads frame.data i, o < frame.length) ↔ Fits frame := by
  rw [frameReads_established m frame.data i h]
  constructor
  · intro h
    refine ⟨h (14 + 20 + 15) ?_, fun hff => h (14 + 20 + 18) ?_, fun htype => ?_⟩
    · exact List.mem_append_left _ (List.mem_append_left _ (List.mem_range'_1.mpr (by omega)))
    · refine List.mem_append_left _ (List.mem_append_right _ ?_)
      rw [if_pos hff]
      exact List.mem_singleton_self _
    · obtain ⟨o, ho, hle⟩ := exists_mem_updateReads frame.data
      refine hle.trans (h o (List.mem_append_right _ ?_))
      rwa [if_pos htype]
  · intro h o ho
    have hlen := h.marker
    rcases List.mem_append.mp ho with ho | ho
    · rcases List.mem_append.mp ho with ho | ho
      · rw [List.mem_range'_1] at ho
        omega
      · split at ho
        · next hff =>
          obtain rfl := List.mem_singleton.mp ho
          exact h.type hff
        · obtain rfl := List.mem_singleton.mp ho
          omega
    · split at ho
      · next htype => exact (lt_of_mem_updateReads ho).trans_le (h.update htype)
      · exact absurd ho List.not_mem_nil

/-! A frame is processed by the bytes at these offsets alone. -/

lemma get16_eq_of_reads (h : ∀ o ∈ List.range' off 2, data' o = data o) : get16 data' off = get16 data off :=
  get16_congr fun o h₁ h₂ => h o (List.mem_range'_1.mpr ⟨h₁, h₂⟩)

lemma get32_eq_of_reads (h : ∀ o ∈ List.range' off 4, data' o = data o) : get32 data' off = get32 data off :=
  get32_congr fun o h₁ h₂ => h o (List.mem_range'_1.mpr ⟨h₁, h₂⟩)

lemma readHops_congr (h : ∀ o ∈ hopReads data off, data' o = data o) : readHops data' off = readHops data off := by
  have hcount : get16 data' off = get16 data off := get16_eq_of_reads fun o ho => h o (List.mem_append_left _ ho)
  rw [readHops, readHops, hcount]
  refine List.map_congr_left fun j hj => get16_eq_of_reads fun o ho => h o (List.mem_append_right _ ?_)
  exact List.mem_flatMap.mpr ⟨j, hj, ho⟩

lemma readPaths_congr (h : ∀ o ∈ pathReads data number off, data' o = data o) :
    readPaths data' number off = readPaths data number off := by
  induction number generalizing off with
  | zero => rfl
  | succ number ih =>
    have hhops := readHops_congr fun o ho => h o (List.mem_append_left _ ho)
    have hcount : get16 data' off = get16 data off := get16_eq_of_reads fun o ho =>
      h o (List.mem_append_left _ (List.mem_append_left _ ho))
    have hrest := ih fun o ho => h o (List.mem_append_right _ ho)
    simp only [readPaths, hhops, hcount, hrest]

lemma advertisedPaths_congr_data (m : SimulatedMachine n) (i : Fin n)
    (h : ∀ o ∈ advertisementReads data doff number, data' o = data o) :
    m.advertisedPaths data' i doff number = m.advertisedPaths data i doff number := by
  have hpaths := readPaths_congr fun o ho => h o (List.mem_append_left _ ho)
  simp only [advertisedPaths, hpaths]
  refine List.map_congr_left fun entry hentry => ?_
  have hlt : entry.2 < number := by
    have := (List.mem_zipIdx hentry).2.1
    rw [length_readPaths] at this
    omega
  have hdest :=
    fun o ho => h o (List.mem_append_right _ (List.mem_flatMap.mpr ⟨entry.2, List.mem_range.mpr hlt, ho⟩))
  rw [get32_eq_of_reads fun o ho => hdest o (List.mem_append_left _ ho),
    hdest _ (List.mem_append_right _ (List.mem_singleton_self _))]

lemma withdrawnPrefixes_congr (h : ∀ o ∈ withdrawnReads doff number, data' o = data o) :
    withdrawnPrefixes data' doff number = withdrawnPrefixes data doff number := by
  refine List.map_congr_left fun i hi => ?_
  have hi := fun o ho => h o (List.mem_append_left _ (List.mem_flatMap.mpr ⟨i, hi, ho⟩))
  rw [get32_eq_of_reads fun o ho => hi o (List.mem_append_left _ ho),
    hi _ (List.mem_append_right _ (List.mem_singleton_self _))]

lemma detectTypeOfPacket_eq_of_reads (h : ∀ o ∈ detectReads data, data' o = data o) :
    detectTypeOfPacket data' = detectTypeOfPacket data := by
  have hbyte : ∀ k < 16, data' (14 + 20 + k) = data (14 + 20 + k) := fun k hk =>
    h _ (List.mem_append_left _ (List.mem_range'_1.mpr (by omega)))
  have hmarker : ((List.range 16).all fun k => data' (14 + 20 + k) == 0xFF) =
      (List.range 16).all fun k => data (14 + 20 + k) == 0xFF := by
    rw [Bool.eq_iff_iff, List.all_eq_true, List.all_eq_true]
    refine forall₂_congr fun k hk => ?_
    rw [hbyte k (List.mem_range.mp hk)]
  rw [detectTypeOfPacket, detectTypeOfPacket, hmarker]
  have hflags : data' 47 = data 47 := hbyte 13 (by omega)
  split
  · next hff =>
    rw [h (14 + 20 + 18) (List.mem_append_right _ (by rw [if_pos hff]; exact List.mem_singleton_self _))]
  · rw [hflags]

lemma updateWithdrawals_congr (h : ∀ o ∈ updateReads data, data' o = data o) :
    updateWithdrawals data' = updateWithdrawals data := by
  have hwrl : get16 data' headerLength = get16 data headerLength := get16_eq_of_reads fun o ho =>
    h o (List.mem_append_left _ (List.mem_append_left _ (List.mem_append_left _ ho)))
  rw [updateWithdrawals, updateWithdrawals, hwrl]
  by_cases hzero : (get16 data headerLength).toNat = 0
  · simp [withdrawnPrefixes, hzero]
  · refine withdrawnPrefixes_congr fun o ho => h o ?_
    refine List.mem_append_left _ (List.mem_append_left _ (List.mem_append_right _ ?_))
    rwa [if_pos hzero]

lemma updateRoutes_congr (m : SimulatedMachine n) (i : Fin n) (h : ∀ o ∈ updateReads data, data' o = data o) :
    m.updateRoutes data' i = m.updateRoutes data i := by
  have hwrl : get16 data' headerLength = get16 data headerLength := get16_eq_of_reads fun o ho =>
    h o (List.mem_append_left _ (List.mem_append_left _ (List.mem_append_left _ ho)))
  have htpal : get16 data' (headerLength + 2 + (get16 data headerLength).toNat) =
      get16 data (headerLength + 2 + (get16 data headerLength).toNat) := get16_eq_of_reads fun o ho =>
    h o (List.mem_append_left _ (List.mem_append_right _ ho))
  rw [updateRoutes, updateRoutes, hwrl, htpal]
  by_cases hzero : (get16 data (headerLength + 2 + (get16 data headerLength).toNat)).toNat = 0
  · rw [hzero, advertisedPaths_zero, advertisedPaths_zero]
  · refine advertisedPaths_congr_data m i fun o ho => h o (List.mem_append_right _ ?_)
    rwa [if_pos hzero]

lemma handleBgpUpdate_congr (m : SimulatedMachine n) (i : Fin n) {frame' : Buffer}
    (h : ∀ o ∈ updateReads frame.data, frame'.data o = frame.data o) :
    (m.handleBgpUpdate frame' i).1 = (m.handleBgpUpdate frame i).1 := by
  rw [handleBgpUpdate_fst, handleBgpUpdate_fst, updateWithdrawals_congr h, updateRoutes_congr m i h]

lemma processFrame_congr (m : SimulatedMachine n) (i : Fin n) {frame' : Buffer}
    (h : ∀ o ∈ m.frameReads frame.data i, frame'.data o = frame.data o) :
    (m.processFrame frame' i).1 = (m.processFrame frame i).1 := by
  by_cases hidle : (m.ifsmArray i).currentState = .idle
  · rw [processFrame, processFrame, if_pos hidle, if_pos hidle]
  rw [frameReads, if_neg hidle] at h
  have htype : detectTypeOfPacket frame'.data = detectTypeOfPacket frame.data :=
    detectTypeOfPacket_eq_of_reads fun o ho => h o (List.mem_append_left _ ho)
  rw [processFrame, processFrame, if_neg hidle, if_neg hidle, htype]
  cases hd : detectTypeOfPacket frame.data with
  | update =>
    by_cases hest : (m.ifsmArray i).currentState = .established
    · have hupdate := m.handleBgpUpdate_congr i fun o ho =>
        h o (List.mem_append_right _ (by rwa [if_pos ⟨hd, hest⟩]))
      simp only [hest, if_true, hupdate]
    · simp only [hest, if_false]
  | _ => rfl

/-- Of a frame that fits, all reads lie inside it, and of no other. The machine that the frame leaves behind is a
function of the bytes read. -/
theorem reads_inside_iff (m : SimulatedMachine n) (frame : Buffer) (i : Fin n)
    (h : (m.ifsmArray i).currentState = .established) :
    ((∀ o ∈ m.frameReads frame.data i, o < frame.length) ↔ Fits frame) ∧
      ∀ frame' : Buffer, (∀ o ∈ m.frameReads frame.data i, frame'.data o = frame.data o) →
        (m.processFrame frame' i).1 = (m.processFrame frame i).1 :=
  ⟨reads_lt_iff_fits m frame i h, fun _ hsame => m.processFrame_congr i hsame⟩

def establishedMachine : SimulatedMachine 1 :=
  smallMachine.setIfsm 0 { smallMachine.ifsmArray 0 with currentState := .established }

def oneRouteFrame (length : ℕ) : Buffer where
  length
  data := store (fun _ => 0) (14 + 20) (makeBgphdr 30 2 ++ be16 0 ++ be16 1)

theorem reads_inside_iff_whole : (∀ o ∈ establishedMachine.frameReads (oneRouteFrame 64).data 0, o < 64) ∧
    (establishedMachine.processFrame (oneRouteFrame 100) 0).1 =
    (establishedMachine.processFrame (oneRouteFrame 64) 0).1 := by
  obtain ⟨hiff, hsame⟩ := reads_inside_iff establishedMachine (oneRouteFrame 64) 0 rfl
  exact ⟨hiff.mpr ⟨by decide, by decide, fun _ => by decide⟩, hsame (oneRouteFrame 100) fun _ _ => rfl⟩

theorem route_behind_frame :
    57 ∈ establishedMachine.frameReads (oneRouteFrame 57).data 0 ∧ ¬57 < (oneRouteFrame 57).length ∧
    (establishedMachine.processFrame (oneRouteFrame 57) 0).1.paths =
      establishedMachine.paths ++ [⟨100, [7], 0, ⟨0, 0⟩, .customer⟩] := by
  decide

end SimulatedMachine

end CourseArchive.Bgp
