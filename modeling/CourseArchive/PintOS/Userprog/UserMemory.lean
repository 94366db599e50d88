import Mathlib.Tactic

/-! How the system calls check the memory of a user: `assert_valid_user_address` and its callers in
`userprog/syscall.c`, over the page directory of `userprog/pagedir.c`. -/

namespace CourseArchive.PintOS

def physBase : ℕ := 0xc0000000

def pgSize : ℕ := 4096

structure Pte where
  frame : ℕ
  present : Bool

structure AddressSpace where
  pagedir : Fin 1024 → Option (Fin 1024 → Pte)
  ram : ℕ → UInt8

def pdNo (vaddr : ℕ) : Fin 1024 := Fin.ofNat 1024 (vaddr / 2 ^ 22)

def ptNo (vaddr : ℕ) : Fin 1024 := Fin.ofNat 1024 (vaddr / 2 ^ 12)

def pgOfs (vaddr : ℕ) : ℕ := vaddr % pgSize

def isUserVaddr (vaddr : ℕ) : Bool := vaddr < physBase

inductive Access
  | check (address : ℕ)
  | read (address : ℕ)
  deriving DecidableEq

inductive Ending
  | returned
  | exited (status : ℤ)
  | panicked (faultAddr : ℕ)
  deriving DecidableEq

structure Checking where
  accesses : List Access
  ending : Ending
  deriving DecidableEq

def Checking.andThen (c next : Checking) : Checking :=
  if c.ending = .returned then ⟨c.accesses ++ next.accesses, next.ending⟩ else c

/-- A fault of the kernel ends in `kill`, which panics when the code that faulted is the kernel's. -/
def pageFault (user : Bool) (faultAddr : ℕ) : Ending := if user then .exited (-1) else .panicked faultAddr

namespace AddressSpace

def lookupPage (m : AddressSpace) (vaddr : ℕ) : Option Pte :=
  (m.pagedir (pdNo vaddr)).map fun pt => pt (ptNo vaddr)

def pagedirGetPage (m : AddressSpace) (uaddr : ℕ) : Option ℕ :=
  match m.lookupPage uaddr with
  | some pte => if pte.present then some (physBase + pte.frame * pgSize + pgOfs uaddr) else none
  | none => none

def load (m : AddressSpace) (vaddr : ℕ) : Option UInt8 :=
  match m.lookupPage vaddr with
  | some pte => if pte.present then some (m.ram (pte.frame * pgSize + pgOfs vaddr)) else none
  | none => none

def validUserAddress (m : AddressSpace) (address : ℕ) : Bool :=
  address ≠ 0 && isUserVaddr address && (m.pagedirGetPage address).isSome

lemma lt_of_valid {m : AddressSpace} {address : ℕ} (h : m.validUserAddress address = true) :
    address < physBase := by
  simp only [validUserAddress, Bool.and_eq_true, isUserVaddr, decide_eq_true_iff] at h
  exact h.1.2

def assertValidUserAddress (m : AddressSpace) (address : ℕ) : Checking :=
  ⟨[.check address], if m.validUserAddress address then .returned else .exited (-1)⟩

def assertValidUserBuffer (m : AddressSpace) (start : ℕ) : ℕ → Checking
  | 0 => ⟨[], .returned⟩
  | size + 1 => (m.assertValidUserAddress start).andThen (m.assertValidUserBuffer (start + 1) size)

/-- The loop checks `start`, moves on, and only then looks at what it points to. -/
def assertValidUserString (m : AddressSpace) (start : ℕ) : Checking :=
  if h : m.validUserAddress start then
    match m.load (start + 1) with
    | none => ⟨[.check start, .read (start + 1)], pageFault false (start + 1)⟩
    | some byte =>
      if byte = 0 then ⟨[.check start, .read (start + 1)], .returned⟩
      else
        have := lt_of_valid h
        let rest := m.assertValidUserString (start + 1)
        ⟨.check start :: .read (start + 1) :: rest.accesses, rest.ending⟩
  else ⟨[.check start], .exited (-1)⟩
termination_by physBase - start

variable {m : AddressSpace} {s e : ℕ}

theorem assertValidUserBuffer_ending (m : AddressSpace) (start size : ℕ) :
    (m.assertValidUserBuffer start size).ending =
      if ∀ i < size, m.validUserAddress (start + i) = true then .returned else .exited (-1) := by
  induction size generalizing start with
  | zero => simp [assertValidUserBuffer]
  | succ size ih =>
    have hsplit : (∀ i < size + 1, m.validUserAddress (start + i) = true) ↔
        m.validUserAddress start = true ∧ ∀ i < size, m.validUserAddress (start + 1 + i) = true := by
      rw [Nat.forall_lt_succ_left']
      simp only [Nat.add_zero, Nat.add_assoc, Nat.add_comm 1]
    simp only [hsplit, assertValidUserBuffer, Checking.andThen, assertValidUserAddress]
    by_cases h : m.validUserAddress start = true
    · simp [h, ih]
    · simp [h]

structure FirstNul (m : AddressSpace) (s e : ℕ) : Prop where
  le : s ≤ e
  nul : m.load e = some 0
  before : ∀ a, s ≤ a → a < e → m.load a ≠ some 0

structure ChecksString (m : AddressSpace) (s : ℕ) (c : Checking) : Prop where
  checked : ∀ before a after, c.accesses = before ++ .read a :: after → .check a ∈ before
  within : ∀ a e, .read a ∈ c.accesses → m.FirstNul s e → a ≤ e
  returned : c.ending = .returned ↔ ∃ e, m.FirstNul s e ∧ ∀ a, s ≤ a → a ≤ e → m.validUserAddress a = true
  exited : c.ending ≠ .returned → c.ending = .exited (-1)

structure Passes (m : AddressSpace) (s e : ℕ) : Prop where
  le : s ≤ e
  valid : ∀ a, s ≤ a → a < e → m.validUserAddress a = true
  nonzero : ∀ a, s < a → a < e → m.load a ≠ some 0

lemma Passes.refl (m : AddressSpace) (s : ℕ) : m.Passes s s where
  le := le_rfl
  valid _ h h' := absurd h (by omega)
  nonzero _ h h' := absurd h (by omega)

lemma Passes.succ (h : m.Passes (s + 1) e) (hs : m.validUserAddress s = true)
    (hnonzero : m.load (s + 1) ≠ some 0) : m.Passes s e where
  le := by have := h.le; omega
  valid a ha ha' := by
    rcases Nat.eq_or_lt_of_le ha with rfl | hlt
    · exact hs
    · exact h.valid a hlt ha'
  nonzero a ha ha' := by
    rcases Nat.eq_or_lt_of_le ha with rfl | hlt
    · exact hnonzero
    · exact h.nonzero a hlt ha'

inductive Stops (m : AddressSpace) (s e : ℕ) : Ending → Prop
  | invalid (h : m.validUserAddress e = false) (hbyte : s < e → m.load e ≠ none ∧ m.load e ≠ some 0) :
    m.Stops s e (.exited (-1))
  | unmapped (hlt : s < e) (h : m.load e = none) : m.Stops s e (.panicked e)
  | nul (hlt : s < e) (h : m.load e = some 0) : m.Stops s e .returned

lemma Stops.succ {ending : Ending} (h : m.Stops (s + 1) e ending) (hle : s + 1 ≤ e)
    (hbyte : m.load (s + 1) ≠ none ∧ m.load (s + 1) ≠ some 0) : m.Stops s e ending := by
  cases h with
  | invalid h hread =>
    refine .invalid h fun _ => ?_
    rcases Nat.eq_or_lt_of_le hle with rfl | hlt
    · exact hbyte
    · exact hread hlt
  | unmapped hlt h => exact .unmapped (by omega) h
  | nul hlt h => exact .nul (by omega) h

theorem assertValidUserString_stops (m : AddressSpace) (s : ℕ) :
    ∃ e, m.Passes s e ∧ m.Stops s e (m.assertValidUserString s).ending := by
  induction s using assertValidUserString.induct m with
  | case1 s hs hload =>
    rw [assertValidUserString, dif_pos hs, hload]
    exact ⟨s + 1, (Passes.refl m (s + 1)).succ hs (by simp [hload]), .unmapped (by omega) hload⟩
  | case2 s hs hload =>
    rw [assertValidUserString, dif_pos hs, hload]
    -- the NUL itself is never checked
    refine ⟨s + 1, ⟨by omega, fun a ha ha' => ?_, fun a ha ha' => by omega⟩, .nul (by omega) hload⟩
    obtain rfl : a = s := by omega
    exact hs
  | case3 s hs byte hload hbyte _ ih =>
    obtain ⟨e, hpass, hstop⟩ := ih
    have hnonzero : m.load (s + 1) ≠ some 0 := by simpa [hload] using hbyte
    have hrun : (m.assertValidUserString s).ending = (m.assertValidUserString (s + 1)).ending := by
      rw [assertValidUserString, dif_pos hs, hload]
      simp only [if_neg hbyte]
    exact ⟨e, hpass.succ hs hnonzero, hrun ▸ hstop.succ hpass.le ⟨by simp [hload], hnonzero⟩⟩
  | case4 s hs =>
    rw [assertValidUserString, dif_neg hs]
    exact ⟨s, .refl m s, .invalid (by simpa using hs) fun h => absurd h (by omega)⟩

lemma accesses_of_valid (h : m.validUserAddress s = true) :
    ∃ rest, (m.assertValidUserString s).accesses = .check s :: .read (s + 1) :: rest := by
  rw [assertValidUserString, dif_pos h]
  split
  · exact ⟨[], rfl⟩
  · split
    · exact ⟨[], rfl⟩
    · exact ⟨_, rfl⟩

lemma assertValidUserString_of_invalid (h : m.validUserAddress s ≠ true) :
    m.assertValidUserString s = ⟨[.check s], .exited (-1)⟩ := by
  rw [assertValidUserString, dif_neg h]

/-- A byte is looked at before it is checked whenever the loop gets to look at one. -/
theorem assertValidUserString_checks_iff (m : AddressSpace) (s : ℕ) :
    m.ChecksString s (m.assertValidUserString s) ↔ m.validUserAddress s = false := by
  rw [← Bool.not_eq_true]
  refine ⟨fun h hs => ?_, fun hs => ?_⟩
  · obtain ⟨rest, hrest⟩ := accesses_of_valid hs
    have hchecked := h.checked [.check s] (s + 1) rest hrest
    simp at hchecked
  · rw [assertValidUserString_of_invalid hs]
    refine ⟨fun before a after h => ?_, fun a e h => ?_, ⟨?_, fun ⟨e, he, hvalid⟩ => ?_⟩, fun _ => rfl⟩
    · have hlist : [Access.check s] = before ++ .read a :: after := h
      have hmem : Access.read a ∈ [Access.check s] := by
        rw [hlist]
        simp
      simp at hmem
    · simp at h
    · rintro ⟨⟩
    · exact absurd (hvalid s le_rfl he.le) hs

def onePage : AddressSpace where
  pagedir i := if i = 32 then some fun j => ⟨1, j = 72⟩ else none
  ram _ := 0

theorem empty_string_panics :
    onePage.FirstNul 0x8048fff 0x8048fff ∧ onePage.validUserAddress 0x8048fff = true ∧
      onePage.assertValidUserString 0x8048fff = ⟨[.check 0x8048fff, .read 0x8049000], .panicked 0x8049000⟩ ∧
      ¬ onePage.ChecksString 0x8048fff (onePage.assertValidUserString 0x8048fff) := by
  have hvalid : onePage.validUserAddress 0x8048fff = true := by decide
  have hload : onePage.load (0x8048fff + 1) = none := by decide
  have hrun : onePage.assertValidUserString 0x8048fff = ⟨[.check 0x8048fff, .read 0x8049000],
    .panicked 0x8049000⟩ := by
    rw [assertValidUserString, dif_pos hvalid, hload]
    rfl
  refine ⟨⟨le_rfl, by decide, fun a ha ha' => by omega⟩, hvalid, hrun, fun h => ?_⟩
  rw [hrun] at h
  have hexit := h.exited (by decide)
  cases hexit

end AddressSpace

end CourseArchive.PintOS
