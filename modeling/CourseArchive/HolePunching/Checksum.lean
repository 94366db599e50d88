import CourseArchive.HolePunching.Forwarding
import CourseArchive.Lib.OnesComplement

/-! The header checksum: what it tests, and that every frame of the machines has it right. -/

namespace CourseArchive.HolePunching

open Lib

def wordSum : List UInt8 → ℕ
  | a :: b :: rest => a.toNat * 256 + b.toNat + wordSum rest
  | _ => 0

def setField (buf : List UInt8) (off : ℕ) (x : UInt16) : List UInt8 := buf.take off ++ be16 x ++ buf.drop (off + 2)

lemma length_setField {buf : List UInt8} {off : ℕ} (h : off + 2 ≤ buf.length) (x : UInt16) :
    (setField buf off x).length = buf.length := by
  simp only [setField, List.length_append, List.length_take, List.length_drop, length_be16]
  omega

lemma wordSum_append {xs : List UInt8} (h : Even xs.length) (ys : List UInt8) :
    wordSum (xs ++ ys) = wordSum xs + wordSum ys := by
  induction xs using wordSum.induct with
  | case1 a b rest ih =>
    rw [List.length_cons, List.length_cons, Nat.even_add_one, Nat.even_add_one, not_not] at h
    simp only [List.cons_append, wordSum, ih h]
    ring
  | case2 xs hxs =>
    have hnil : xs = [] := by
      match xs, hxs with
      | [], _ => rfl
      | [_], _ => simp at h
      | a :: b :: rest, hxs => exact absurd rfl (hxs a b rest)
    subst hnil
    simp [wordSum]

lemma wordSum_be16 (x : UInt16) : wordSum (be16 x) = x.toNat := by
  have hx := x.toNat_lt
  simp only [wordSum, be16, UInt8.toNat_ofNat']
  omega

lemma wordSum_setField {buf : List UInt8} {off : ℕ} (hoff : Even off) (h : off + 2 ≤ buf.length) (x : UInt16) :
    wordSum (setField buf off x) = wordSum (setField buf off 0) + x.toNat := by
  have htake : Even (buf.take off).length := by rwa [List.length_take, Nat.min_eq_left (by omega)]
  have hsum : ∀ y, wordSum (setField buf off y) =
    wordSum (buf.take off) + (y.toNat + wordSum (buf.drop (off + 2))) := by
    intro y
    rw [setField, List.append_assoc, wordSum_append htake, wordSum_append (by simp), wordSum_be16]
  rw [hsum, hsum, UInt16.toNat_zero]
  ring

lemma checksumFrom_carried {buf : List UInt8} (heven : Even buf.length) {sum acc : ℕ} (h : Carried 65535 sum acc) :
    Carried 65535 (sum + wordSum buf) (checksumFrom acc buf) := by
  induction acc, buf using checksumFrom.induct generalizing sum with
  | case1 acc a b rest ih =>
    rw [List.length_cons, List.length_cons, Nat.even_add_one, Nat.even_add_one, not_not] at heven
    have ha := a.toNat_lt
    have hb := b.toNat_lt
    have hword : Carried 65535 (sum + (a.toNat * 256 + b.toNat)) (addWord acc (a.toNat * 256 + b.toNat)) :=
      h.add (by omega)
    simp only [checksumFrom, wordSum]
    exact (ih heven hword).congr (by ring)
  | case2 acc a => simp at heven
  | case3 acc => simpa [checksumFrom, wordSum] using h

lemma getChecksum_toNat {buf : List UInt8} (heven : Even buf.length) :
    ∃ x, Carried 65535 (wordSum buf) x ∧ (getChecksum buf).toNat = 65535 - x := by
  have h := checksumFrom_carried heven (.start (by decide : 0 < 65535))
  rw [Nat.zero_add] at h
  refine ⟨_, h, ?_⟩
  have hle := h.le
  rw [getChecksum, UInt16.toNat_not, UInt16.toNat_ofNat', Nat.mod_eq_of_lt (by omega), UInt16.size]

lemma getChecksum_eq_zero_iff {buf : List UInt8} (heven : Even buf.length) :
    getChecksum buf = 0 ↔ wordSum buf ≡ 0 [MOD 65535] := by
  obtain ⟨x, hx, hsum⟩ := getChecksum_toNat heven
  have hle := hx.le
  rw [← UInt16.toNat_inj, hsum, UInt16.toNat_zero, Nat.modEq_zero_iff_dvd, ← hx.eq_iff]
  omega

lemma getChecksum_setField (buf : List UInt8) (off : ℕ) (heven : Even buf.length) (hoff : Even off)
    (h : off + 2 ≤ buf.length) : getChecksum (setField buf off (getChecksum (setField buf off 0))) = 0 := by
  have heven' : ∀ x, Even (setField buf off x).length := fun x => by rwa [length_setField h]
  obtain ⟨x, hx, hsum⟩ := getChecksum_toNat (heven' 0)
  rw [getChecksum_eq_zero_iff (heven' _), wordSum_setField hoff h, hsum, Nat.modEq_zero_iff_dvd]
  exact hx.dvd_add_complement

/-! The frames of the machines. -/

def ChecksumRight (frame : Buffer) : Prop := getChecksum (ipHeader frame.data) = 0

lemma length_ipHeader (data : ℕ → UInt8) : (ipHeader data).length = 20 := by
  rw [ipHeader, List.length_map, List.length_range]

lemma ipHeader_store (data : ℕ → UInt8) (x : UInt16) :
    ipHeader (store data 24 (be16 x)) = setField (ipHeader data) 10 x := rfl

lemma ipHeader_of_holds {data : ℕ → UInt8} {bytes : List UInt8} (h : Holds data 14 bytes)
    (hlen : bytes.length = 20) :
    ipHeader data = bytes := by
  refine List.ext_getElem (by rw [length_ipHeader, hlen]) fun k hk hk' => ?_
  simp only [ipHeader, List.getElem_map, List.getElem_range]
  exact h k hk'

lemma checksumRight_consumeTtl (frame : Buffer) : ChecksumRight { frame with data := consumeTtl frame.data } := by
  have hzero : ∀ data, store data 24 [0, 0] = store data 24 (be16 0) := fun _ => rfl
  rw [ChecksumRight]
  simp only [consumeTtl, hzero, ipHeader_store]
  have hlen := length_ipHeader (store frame.data 22 [ttl frame.data - 1])
  have hset : ∀ x y, setField (setField (ipHeader (store frame.data 22 [ttl frame.data - 1])) 10 x) 10 y =
      setField (ipHeader (store frame.data 22 [ttl frame.data - 1])) 10 y := fun _ _ => rfl
  rw [hset]
  exact getChecksum_setField _ _ (by rw [hlen]; decide) (by decide) (by rw [hlen]; decide)

lemma getChecksum_ipHeaderBytes (dataLength : ℕ) (srcIp dstIp : UInt32) :
    getChecksum
      (ipHeaderBytes dataLength (getChecksum (ipHeaderBytes dataLength 0 srcIp dstIp)) srcIp dstIp) = 0 :=
  getChecksum_setField (ipHeaderBytes dataLength 0 srcIp dstIp) 10 (show Even 20 by decide) (by decide)
    (show 12 ≤ 20 by decide)

lemma Built.checksumRight {frame : Buffer} (h : Built frame) : ChecksumRight frame := by
  obtain ⟨mac, type, dataLength, srcIp, dstIp, srcPort, dstPort, id, payload, rfl⟩ := h
  have h := (Holds.append_iff.mp
    (holds_packet (fillHeader mac type dataLength srcIp dstIp srcPort dstPort id ++ payload))).1
  generalize packet (fillHeader mac type dataLength srcIp dstIp srcPort dstPort id ++ payload) = frame at h ⊢
  simp only [fillHeader, Holds.append_iff, List.length_append, List.length_replicate, Vector.length_toList,
    List.length_cons, List.length_nil] at h
  obtain ⟨⟨⟨⟨⟨⟨-, hheader⟩, -⟩, -⟩, -⟩, -⟩, -⟩ := h
  have hlen : ∀ x, (ipHeaderBytes dataLength x srcIp dstIp).length = 20 := fun _ => rfl
  rw [ChecksumRight, ipHeader_of_holds hheader (hlen _)]
  exact getChecksum_ipHeaderBytes dataLength srcIp dstIp

lemma CopyOf.checksumRight {received sent : Buffer} (h : CopyOf received sent) : ChecksumRight sent := by
  obtain ⟨data, -, rfl⟩ := h
  exact checksumRight_consumeTtl ⟨received.length, data⟩

lemma Answers.checksumRight {n : ℕ} {frame : Buffer} {frames : List (Sent n)} {copy : Option (Sent n)}
    (h : Answers frame frames copy) {s : Sent n} (hs : s ∈ frames) : ChecksumRight s.frame :=
  (h.mem hs).elim Built.checksumRight CopyOf.checksumRight

/-- The checksum of a buffer with its checksum in place is zero, whatever the place; it is zero just for a sum of
zero; and every frame that a machine builds or passes on has one that the receivers accept. -/
theorem checksums_right :
    (∀ (buf : List UInt8) (off : ℕ), Even buf.length → Even off → off + 2 ≤ buf.length →
      getChecksum (setField buf off (getChecksum (setField buf off 0))) = 0) ∧
    (∀ buf : List UInt8, Even buf.length → (getChecksum buf = 0 ↔ wordSum buf ≡ 0 [MOD 65535])) ∧
    (∀ (n : ℕ) (m : NatMachine n) (frame : Buffer) (ifaceIndex : Fin (n + 1)),
      ∀ s ∈ (m.processFrame frame ifaceIndex).2, ChecksumRight s.frame) ∧
    (∀ (n : ℕ) (m : ServerMachine n) (frame : Buffer) (ifaceIndex : Fin (n + 1)),
      ∀ s ∈ (m.processFrame frame ifaceIndex).2.frames, ChecksumRight s.frame) ∧
    ∀ (n : ℕ) (m : ClientMachine n) (a : ClientMachine.Move n), ∀ s ∈ (m.move a).2.frames,
    ChecksumRight s.frame := by
  refine ⟨fun buf off heven hoff h => getChecksum_setField buf off heven hoff h,
    fun buf heven => getChecksum_eq_zero_iff heven,
    fun n m frame ifaceIndex s hs => (m.answers frame ifaceIndex).checksumRight hs,
    fun n m frame ifaceIndex s hs => (m.answers frame ifaceIndex).checksumRight hs, fun n m a s hs => ?_⟩
  cases a with
  | received frame ifaceIndex => exact (m.answers frame ifaceIndex).checksumRight hs
  | _ => exact (m.command_built (by simp) hs).checksumRight

theorem checksums_right_small :
    setField [0xe0, 1, 0, 0] 2 (getChecksum (setField [0xe0, 1, 0, 0] 2 0)) = [0xe0, 1, 0x1f, 0xfe] ∧
      getChecksum [0xe0, 1, 0x1f, 0xfe] = 0 :=
  have h : setField [0xe0, 1, 0, 0] 2 (getChecksum (setField [0xe0, 1, 0, 0] 2 0)) =
    [0xe0, 1, 0x1f, 0xfe] := by decide
  ⟨h, h ▸ checksums_right.1 [0xe0, 1, 0, 0] 2 (by decide) (by decide) (by decide)⟩

end CourseArchive.HolePunching
