import CourseArchive.PintOS.Userprog.DescriptorTable
import CourseArchive.PintOS.Userprog.UserMemory

/-! The system call READ over pages that the user may not write. -/

namespace CourseArchive.PintOS

open Lib Filesys

structure UserPages extends AddressSpace where
  writable : Fin 1024 → Fin 1024 → Bool

inductive ReadEnding
  | returned (eax : ℤ) (process : Process)
  | exited (status : ℤ) (process : Process)
  | panicked (faultAddr : ℕ)

structure ReadCall where
  memory : UserPages
  stored : List ℕ
  ending : ReadEnding

namespace UserPages

/-- A store by the kernel; `none` is a page fault. `threads/start.S` sets `CR0_WP`, so PTE_W holds for the kernel
too. -/
def store (m : UserPages) (vaddr : ℕ) (byte : UInt8) : Option UserPages :=
  match m.lookupPage vaddr with
  | some pte =>
    if pte.present && m.writable (pdNo vaddr) (ptNo vaddr) then
      some { m with ram := Function.update m.ram (pte.frame * pgSize + pgOfs vaddr) byte }
    else none
  | none => none

def storeBytes (m : UserPages) (start : ℕ) : List UInt8 → UserPages × List ℕ × Option ℕ
  | [] => (m, [], none)
  | byte :: bytes =>
    match m.store start byte with
    | none => (m, [], some start)
    | some m =>
      let rest := m.storeBytes (start + 1) bytes
      (rest.1, start :: rest.2.1, rest.2.2)

def sysRead (m : UserPages) (fd : ℤ) (buffer length : ℕ) (p : Process) : Except Fault ReadCall :=
  match (m.assertValidUserBuffer buffer length).ending with
  | .exited status => .ok ⟨m, [], .exited status p⟩
  | .panicked faultAddr => .ok ⟨m, [], .panicked faultAddr⟩
  | .returned =>
    match Syscall.read fd length p with
    | .error e => .error e
    | .ok ((eax, bytes), q) =>
      match m.storeBytes buffer bytes with
      | (memory, stored, none) => .ok ⟨memory, stored, .returned eax q⟩
      | (memory, stored, some faultAddr) => .ok ⟨memory, stored, .panicked faultAddr⟩

def Writable (m : UserPages) (address : ℕ) : Prop :=
  address < physBase ∧ ∃ pte, m.lookupPage address = some pte ∧ pte.present = true ∧
    m.writable (pdNo address) (ptNo address) = true

structure Respects (m : UserPages) (buffer length : ℕ) (p : Process) (result : Except Fault ReadCall) : Prop where
  stores : ∀ call, result = .ok call → ∀ a ∈ call.stored, m.Writable a
  refuses : (∃ i < length, ¬m.Writable (buffer + i)) → result = .ok ⟨m, [], .exited (-1) p⟩

variable {m m' : UserPages} {a start buffer length : ℕ} {byte : UInt8} {p q : Process} {fd : ℤ}

lemma store_inv (h : m.store a byte = some m') :
    (∃ pte, m.lookupPage a = some pte ∧ pte.present = true ∧ m.writable (pdNo a) (ptNo a) = true) ∧
      m'.pagedir = m.pagedir ∧ m'.writable = m.writable := by
  rw [store] at h
  split at h
  · next pte hpte =>
    split at h
    · next hbits =>
      obtain rfl := Option.some_injective _ h
      rw [Bool.and_eq_true] at hbits
      exact ⟨⟨pte, hpte, hbits⟩, rfl, rfl⟩
    · cases h
  · cases h

lemma writable_congr (hdir : m'.pagedir = m.pagedir) (hbits : m'.writable = m.writable) :
    m'.Writable a ↔ m.Writable a := by
  rw [Writable, Writable, AddressSpace.lookupPage, AddressSpace.lookupPage, hdir, hbits]

lemma writable_of_mem_storeBytes {bytes : List UInt8} (hrange : ∀ k < bytes.length, start + k < physBase)
    (h : a ∈ (m.storeBytes start bytes).2.1) : m.Writable a := by
  induction bytes generalizing m start with
  | nil => exact absurd h List.not_mem_nil
  | cons byte bytes ih =>
    rw [storeBytes] at h
    split at h
    · exact absurd h List.not_mem_nil
    · next m' hstore =>
      obtain ⟨hpte, hdir, hbits⟩ := store_inv hstore
      rcases List.mem_cons.mp h with rfl | h
      · exact ⟨hrange 0 (Nat.succ_pos _), hpte⟩
      · refine (writable_congr hdir hbits).mp (ih (fun k hk => ?_) h)
        rw [Nat.add_assoc, Nat.add_comm 1]
        exact hrange (k + 1) (Nat.succ_lt_succ hk)

end UserPages

/-! READ gets at most as many bytes as it asks for. -/

namespace Syscall

lemma cacheRead_length (sectorIdx : BlockSector) (offset size : ℕ) (d : CachedDisk) :
    Ensures (CachedDisk.cacheRead sectorIdx offset size) d fun bytes _ => bytes.length = size := by
  refine Ensures.bind (P := fun _ _ => True) (fun _ _ _ => trivial) fun idx d' _ => ?_
  refine Ensures.ite (fun _ => ?_) fun _ => ?_
  · exact Ensures.bind (P := fun _ _ => False) Ensures.throw fun _ _ h => h.elim
  refine Ensures.bind (P := fun _ _ => True) (fun _ _ _ => trivial) fun d'' d' _ => ?_
  refine Ensures.bind (P := fun _ _ => True) (fun _ _ _ => trivial) fun _ d' _ => ?_
  exact Ensures.pure (Block.slice_length ..)

lemma onDisk_ensures {α : Type} {m : Comp CachedDisk Fault α} {P : α → Prop} {s : Filesys}
    (h : Ensures m s.disk fun a _ => P a) : Ensures (onDisk m) s fun a _ => P a := by
  intro a t hrun
  rw [onDisk] at hrun
  split at hrun
  · next hm =>
    cases hrun
    exact h _ _ hm
  · cases hrun

lemma readFrom_length (inode : InodeData) (readLength : ℤ) (fuel size offset : ℕ) (s : Filesys) :
    Ensures (readFrom inode readLength fuel size offset) s fun bytes _ => bytes.length ≤ size := by
  induction fuel generalizing size offset s with
  | zero => exact Ensures.pure (Nat.zero_le _)
  | succ fuel ih =>
    rw [readFrom]
    refine Ensures.ite (fun _ => Ensures.pure (Nat.zero_le _)) fun _ => ?_
    refine Ensures.bind (P := fun _ _ => True) (fun _ _ _ => trivial) fun sectorIdx s' _ => ?_
    refine Ensures.ite (fun _ => Ensures.pure (Nat.zero_le _)) fun _ => ?_
    refine (onDisk_ensures (cacheRead_length _ _ _ _)).bind fun bytes s' hbytes => ?_
    refine (ih _ _ _).bind fun rest s' hrest => Ensures.pure ?_
    have hchunk : chunkSize readLength size offset ≤ size := min_le_left ..
    rw [List.length_append, hbytes]
    omega

lemma offT_toNat_le (length : ℕ) : (offT length).toNat ≤ length := by
  rw [offT, Int.bmod]
  split <;> omega

lemma fileRead_length (file : File) (size : ℤ) (s : Filesys) :
    Ensures (fileRead file size) s fun r _ => r.1.length ≤ size.toNat := by
  refine Ensures.bind (P := fun bytes _ => bytes.length ≤ size.toNat) ?_ fun bytes t h => Ensures.pure h
  refine Ensures.bind (P := fun _ _ => True) (fun _ _ _ => trivial) fun inode t _ => ?_
  exact Ensures.ite (fun _ => Ensures.pure (Nat.zero_le _)) fun _ => readFrom_length _ _ _ _ _ _

lemma readInput_length (length : ℕ) (p : Process) :
    Ensures (readInput length) p fun bytes _ => bytes.length = length := by
  induction length generalizing p with
  | zero => exact Ensures.pure rfl
  | succ length ih =>
    refine Ensures.bind (P := fun _ _ => True) (fun _ _ _ => trivial) fun c q _ => ?_
    exact (ih q).bind fun cs r hcs => Ensures.pure (congrArg (· + 1) hcs)

lemma onFilesys_ensures {α : Type} {m : FsM α} {P : α → Prop} {p : Process}
    (h : Ensures m p.filesys fun a _ => P a) :
    Ensures (onFilesys m) p fun a _ => P a := by
  intro a t hrun
  rw [onFilesys] at hrun
  split at hrun
  · next hm =>
    cases hrun
    exact h _ _ hm
  · cases hrun

lemma withFile_result {α : Type} {fd : ℤ} {missing : α} {op : File → FsM (α × Option File)} {Q : α → Prop}
    {p : Process} (hmissing : Q missing) (hop : ∀ file s, Ensures (op file) s fun r _ => Q r.1) :
    Ensures (withFile fd missing op) p fun a _ => Q a := by
  refine Ensures.bind (P := fun _ _ => True) (fun _ _ _ => trivial) fun d q _ => ?_
  cases d with
  | none => exact Ensures.pure hmissing
  | some d =>
    refine Ensures.bind (P := fun r _ => Q r.1) ?_ fun r t h => ?_
    · exact onFilesys_ensures (hop d.file q.filesys)
    · obtain ⟨result, _ | file⟩ := r
      · exact Ensures.bind (P := fun _ _ => True) (fun _ _ _ => trivial) fun _ _ _ => Ensures.pure h
      · exact Ensures.bind (P := fun _ _ => True) (fun _ _ _ => trivial) fun _ _ _ => Ensures.pure h

lemma read_length (fd : ℤ) (length : ℕ) (p : Process) :
    Ensures (read fd length) p fun r _ => r.2.length ≤ length := by
  rw [read]
  refine Ensures.ite (fun _ => ?_) fun _ => ?_
  · exact (readInput_length length p).bind fun bytes q h => Ensures.pure h.le
  · refine withFile_result (Nat.zero_le _) fun file s => ?_
    exact (fileRead_length file _ s).bind fun r t h => Ensures.pure (h.trans (offT_toNat_le length))

end Syscall

namespace UserPages

variable {m : UserPages} {buffer length : ℕ} {p : Process} {fd : ℤ}

lemma sysRead_of_invalid (h : ∃ i < length, m.validUserAddress (buffer + i) = false) :
    m.sysRead fd buffer length p = .ok ⟨m, [], .exited (-1) p⟩ := by
  have hending : (m.assertValidUserBuffer buffer length).ending = .exited (-1) := by
    rw [AddressSpace.assertValidUserBuffer_ending, if_neg]
    obtain ⟨i, hi, hinvalid⟩ := h
    exact fun hall => absurd (hall i hi) (by rw [hinvalid]; decide)
  rw [sysRead, hending]

lemma sysRead_of_valid (m : UserPages) (fd : ℤ) (p : Process)
    (h : ∀ i < length, m.validUserAddress (buffer + i) = true) :
    (∀ call, m.sysRead fd buffer length p = .ok call → ∀ a ∈ call.stored, m.Writable a) ∧
      m.sysRead fd buffer length p ≠ .ok ⟨m, [], .exited (-1) p⟩ := by
  have hending : (m.assertValidUserBuffer buffer length).ending = .returned := by
    rw [AddressSpace.assertValidUserBuffer_ending, if_pos h]
  rw [sysRead, hending]
  cases hread : Syscall.read fd length p with
  | error e => exact ⟨fun _ he => absurd he (by simp), by simp⟩
  | ok r =>
    obtain ⟨⟨eax, bytes⟩, q⟩ := r
    have hlen : bytes.length ≤ length := Syscall.read_length fd length p _ _ hread
    have hrange :
      ∀ k < bytes.length, buffer + k < physBase := fun k hk => AddressSpace.lt_of_valid (h k (hk.trans_le hlen))
    have hstored := fun a => writable_of_mem_storeBytes (m := m) (a := a) hrange
    rcases hbytes : m.storeBytes buffer bytes with ⟨memory, stored, fault⟩
    rw [hbytes] at hstored
    simp only [hbytes]
    cases fault with
    | none => exact ⟨fun call hcall => by cases hcall; exact hstored, fun hcall => by cases hcall⟩
    | some faultAddr => exact ⟨fun call hcall => by cases hcall; exact hstored, fun hcall => by cases hcall⟩

theorem sysRead_respects_iff (m : UserPages) (fd : ℤ) (buffer length : ℕ) (p : Process) :
    m.Respects buffer length p (m.sysRead fd buffer length p) ↔
      (∃ i < length, m.validUserAddress (buffer + i) = false) ∨ ∀ i < length, m.Writable (buffer + i) := by
  by_cases hvalid : ∃ i < length, m.validUserAddress (buffer + i) = false
  · rw [sysRead_of_invalid hvalid]
    refine ⟨fun _ => .inl hvalid, fun _ => ⟨?_, fun _ => rfl⟩⟩
    rintro _ ⟨⟩ a ha
    exact absurd ha List.not_mem_nil
  · have hall : ∀ i < length, m.validUserAddress (buffer + i) = true := by simpa using hvalid
    obtain ⟨hstores, hexit⟩ := m.sysRead_of_valid fd p hall
    rw [or_iff_right hvalid]
    constructor
    · intro h
      by_contra hn
      push Not at hn
      exact hexit (h.refuses hn)
    · intro h
      exact ⟨hstores, fun ⟨i, hi, hn⟩ => absurd (h i hi) hn⟩

def codePage : UserPages := { AddressSpace.onePage with writable := fun _ _ => false }

theorem read_into_code_panics :
    codePage.sysRead 0 0x8048000 1 newProcess = .ok ⟨codePage, [], .panicked 0x8048000⟩ ∧
    ¬codePage.Respects 0x8048000 1 newProcess (codePage.sysRead 0 0x8048000 1 newProcess) := by
  have hcheck : (codePage.assertValidUserBuffer 0x8048000 1).ending = .returned := by decide
  have hpanics : codePage.sysRead 0 0x8048000 1 newProcess = .ok ⟨codePage, [], .panicked 0x8048000⟩ := by
    rw [sysRead, hcheck]
    rfl
  have hcode : ¬codePage.Writable (0x8048000 + 0) := by
    rintro ⟨-, pte, -, -, hbit⟩
    cases hbit
  refine ⟨hpanics, fun h => ?_⟩
  have hexit := h.refuses ⟨0, Nat.one_pos, hcode⟩
  rw [hpanics] at hexit
  simp at hexit

end UserPages

end CourseArchive.PintOS
