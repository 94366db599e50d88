import CourseArchive.Lib.KeyedList
import CourseArchive.PintOS.Userprog.Syscall
import CourseArchive.PintOS.Filesys.BlockMap.Capacity

/-! The open files of a process as a map from descriptors to files with positions of their own. -/

namespace CourseArchive.PintOS

open Lib Filesys Syscall

inductive Call
  | openFile (name : Name)
  | filesize (fd : ℤ)
  | read (fd : ℤ) (length : ℕ)
  | write (fd : ℤ) (buffer : List UInt8)
  | seek (fd : ℤ) (position : ℕ)
  | tell (fd : ℤ)
  | close (fd : ℤ)
  deriving DecidableEq

structure Outcome where
  value : Option ℤ
  bytes : List UInt8
  deriving DecidableEq

namespace Call

def run (malloc : Malloc) : Call → ProcessM Outcome
  | openFile name => do return ⟨some (← Syscall.openFile malloc name), []⟩
  | filesize fd => do return ⟨some (← Syscall.filesize fd), []⟩
  | read fd length => do
    let (value, bytes) ← Syscall.read fd length
    return ⟨some value, bytes⟩
  | write fd buffer => do return ⟨some (← Syscall.write fd buffer), []⟩
  | seek fd position => do
    Syscall.seek fd position
    return ⟨none, []⟩
  | tell fd => do return ⟨some (← Syscall.tell fd), []⟩
  | close fd => do
    Syscall.close fd
    return ⟨none, []⟩

def descriptor : Call → Option ℤ
  | openFile _ => none
  | read fd _ => if fd = stdinFileno then none else some fd
  | write fd _ => if fd = stdoutFileno then none else some fd
  | filesize fd | seek fd _ | tell fd | close fd => some fd

def missing : Call → Outcome
  | seek _ _ | close _ => ⟨none, []⟩
  | _ => ⟨some (-1), []⟩

def work (file : File) : Call → FsM Unit
  | openFile _ | tell _ => return
  | filesize _ => do
    let _ ← fileLength file
    return
  | read _ length => do
    let _ ← fileRead file (offT length)
    return
  | write _ buffer => do
    let _ ← fileWrite file buffer
    return
  | seek _ position => do
    let _ ← fileSeek file (offT position)
    return
  | close _ => fileClose file

def Effect (files : ℤ → Option File) (o : Outcome) (files' : ℤ → Option File) : Call → Prop
  | openFile _ => (o = ⟨some (-1), []⟩ ∧ files' = files) ∨
      ∃ (fd : ℤ) (inode : BlockSector), 2 ≤ fd ∧ files fd = none ∧ o = ⟨some fd, []⟩ ∧
        files' = put files fd (some ⟨inode, 0, false⟩)
  | filesize fd => files' = files ∧ (files fd = none → o = ⟨some (-1), []⟩)
  | read fd _ => if fd = stdinFileno then files' = files else
      match files fd with
      | none => o = ⟨some (-1), []⟩ ∧ files' = files
      | some f => o.value = some o.bytes.length ∧
          files' = put files fd (some { f with pos := f.pos + o.bytes.length })
  | write fd _ => if fd = stdoutFileno then files' = files else
      match files fd with
      | none => o = ⟨some (-1), []⟩ ∧ files' = files
      | some f => ∃ n : ℕ, o = ⟨some n, []⟩ ∧ files' = put files fd (some { f with pos := f.pos + n })
  | seek fd position =>
      match files fd with
      | none => files' = files
      | some f => files' = put files fd (some { f with pos := position })
  | tell fd => files' = files ∧ o.value = some (match files fd with
      | none => -1
      | some f => f.pos)
  | close fd => files' = put files fd none

end Call

abbrev Trace := List (Call × Outcome)

def openedFds (trace : Trace) : List ℤ := trace.filterMap fun (call, o) =>
  match call with
  | .openFile _ => o.value.filter fun fd => fd ≠ -1
  | _ => none

inductive Effects (files : ℤ → Option File) : Trace → (ℤ → Option File) → Prop
  | nil : Effects files [] files
  | snoc {trace : Trace} {call : Call} {o : Outcome} {files' files'' : ℤ → Option File} :
    Effects files trace files' →
      call.Effect files' o files'' → Effects files (trace ++ [(call, o)]) files''

/-- A run of the process. Between its calls, other processes change the file system. -/
inductive Run (malloc : Malloc) (p : Process) : Trace → Process → Prop
  | nil : Run malloc p [] p
  | call {trace : Trace} {q r : Process} {call : Call} {o : Outcome} :
    Run malloc p trace q → call.run malloc q = .ok (o, r) →
      Run malloc p (trace ++ [(call, o)]) r
  | others {trace : Trace} {q : Process} (s : Filesys) :
    Run malloc p trace q → Run malloc p trace { q with filesys := s }

namespace Process

def file (p : Process) (fd : ℤ) : Option File := (p.openFiles.find? fun d => d.fd = fd).map FileDescriptor.file

structure Tidy (p : Process) : Prop where
  fds : ∀ d ∈ p.openFiles, 2 ≤ d.fd ∧ d.fd < p.nextFd
  nodup : (p.openFiles.map FileDescriptor.fd).Nodup
  elems : (p.openFiles.map FileDescriptor.elem).Nodup

variable {p q : Process} {d : FileDescriptor} {fd : ℤ}

namespace Tidy

lemma elem_iff (h : p.Tidy) (hd : d ∈ p.openFiles) {d' : FileDescriptor} (hd' : d' ∈ p.openFiles) :
    d'.elem = d.elem ↔ d'.fd = d.fd :=
  ⟨fun he => by rw [List.inj_on_of_nodup_map h.elems hd' hd he], fun he => by
    rw [List.inj_on_of_nodup_map h.nodup hd' hd he]⟩

lemma setFile_eq (h : p.Tidy) (hd : d ∈ p.openFiles) (f : File) :
    setFile d.elem f p.openFiles = p.openFiles.map fun x => if x.fd = d.fd then { x with file := f } else x := by
  refine List.map_congr_left fun x hx => ?_
  simp only [h.elem_iff hd hx]

lemma listRemove_eq (h : p.Tidy) (hd : d ∈ p.openFiles) :
    listRemove d.elem p.openFiles = p.openFiles.filter fun x => x.fd ≠ d.fd := by
  refine List.filter_congr fun x hx => ?_
  simp only [ne_eq, h.elem_iff hd hx]

lemma of_map (h : p.Tidy) {f : FileDescriptor → FileDescriptor} (hf : ∀ x, (f x).fd = x.fd ∧ (f x).elem = x.elem)
    (hq : q.openFiles = p.openFiles.map f) (hn : q.nextFd = p.nextFd) : q.Tidy where
  fds d hd := by
    rw [hq] at hd
    obtain ⟨x, hx, rfl⟩ := List.mem_map.mp hd
    rw [(hf x).1, hn]
    exact h.fds x hx
  nodup := by
    rw [hq, List.map_map, show FileDescriptor.fd ∘ f = FileDescriptor.fd from funext fun x => (hf x).1]
    exact h.nodup
  elems := by
    rw [hq, List.map_map, show FileDescriptor.elem ∘ f = FileDescriptor.elem from funext fun x => (hf x).2]
    exact h.elems

lemma of_sublist (h : p.Tidy) (hq : q.openFiles.Sublist p.openFiles) (hn : q.nextFd = p.nextFd) : q.Tidy where
  fds d hd := by
    rw [hn]
    exact h.fds d (hq.subset hd)
  nodup := h.nodup.sublist (hq.map _)
  elems := h.elems.sublist (hq.map _)

lemma setFile (h : p.Tidy) (hd : p.openFiles.find? (fun x => x.fd = fd) = some d) {f : File}
    (hq : q.openFiles = Syscall.setFile d.elem f p.openFiles) (hn : q.nextFd = p.nextFd) :
    q.Tidy ∧ q.file = put p.file fd (some f) := by
  have hmem := List.mem_of_find?_eq_some hd
  obtain rfl := key_of_find? hd
  refine ⟨h.of_map (f := fun x => if x.elem = d.elem then { x with file := f } else x) ?_ hq hn, ?_⟩
  · intro x
    split <;> exact ⟨rfl, rfl⟩
  · funext fd'
    rw [Process.file, hq, h.setFile_eq hmem, find?_key_modify FileDescriptor.fd
      (f := fun x : FileDescriptor => { x with file := f }) fun _ => rfl, put_apply]
    split
    · next he => rw [he, hd]; rfl
    · rfl

lemma listRemove (h : p.Tidy) (hd : p.openFiles.find? (fun x => x.fd = fd) = some d)
    (hq : q.openFiles = Syscall.listRemove d.elem p.openFiles) (hn : q.nextFd = p.nextFd) :
    q.Tidy ∧ q.file = put p.file fd none := by
  have hmem := List.mem_of_find?_eq_some hd
  obtain rfl := key_of_find? hd
  refine ⟨h.of_sublist (by rw [hq]; exact List.filter_sublist) hn, ?_⟩
  funext fd'
  rw [Process.file, hq, h.listRemove_eq hmem, find?_key_remove FileDescriptor.fd, put_apply]
  split <;> rfl

end Tidy

section WithFile

variable {α : Type} {missing : α} {op : File → FsM (α × Option File)}

lemma withFile_missing (h : p.file fd = none) : withFile fd missing op p = .ok (missing, p) := by
  have hd : p.openFiles.find? (fun x => x.fd = fd) = none := Option.map_eq_none_iff.mp h
  rw [withFile, getFileFromCurrentThread, bind_assoc_run, bind_get]
  simp only [hd]
  rfl

lemma withFile_ok (missing : α) (h : p.Tidy) {f : File} (hf : p.file fd = some f) {a : α} {f' : Option File}
    {s : Filesys} (hop : op f p.filesys = .ok ((a, f'), s)) :
    Returns (withFile fd missing op) p fun b q => b = a ∧ q.Tidy ∧ q.file = put p.file fd f' ∧
    q.nextFd = p.nextFd := by
  obtain ⟨d, hd, rfl⟩ := Option.map_eq_some_iff.mp hf
  have hlift : onFilesys (op d.file) p = .ok ((a, f'), { p with filesys := s }) := by simp [onFilesys, hop]
  have ht : Tidy { p with filesys := s } := ⟨h.fds, h.nodup, h.elems⟩
  refine Returns.get_bind ?_
  simp only [hd]
  refine Returns.after hlift ?_
  cases f' with
  | some f' =>
    obtain ⟨hq, hfile⟩ :=
      Tidy.setFile (q := { p with filesys := s, openFiles := Syscall.setFile d.elem f' p.openFiles }) h hd rfl rfl
    exact Returns.modify_bind (Returns.pure ⟨rfl, hq, hfile, rfl⟩)
  | none =>
    obtain ⟨hq, hfile⟩ :=
      Tidy.listRemove (q := { p with filesys := s, openFiles := Syscall.listRemove d.elem p.openFiles }) h
      hd rfl rfl
    exact Returns.modify_bind (Returns.pure ⟨rfl, hq, hfile, rfl⟩)

lemma withFile_error {f : File} (hf : p.file fd = some f) {e : Fault} (hop : op f p.filesys = .error e) :
    withFile fd missing op p = .error e := by
  obtain ⟨d, hd, rfl⟩ := Option.map_eq_some_iff.mp hf
  have hlift : onFilesys (op d.file) p = .error e := by simp [onFilesys, hop]
  rw [withFile, getFileFromCurrentThread, bind_assoc_run, bind_get]
  simp only [hd, bind_pure_run]
  exact bind_error hlift

lemma withFile_ensures (h : p.Tidy) {Q : α → (ℤ → Option File) → Prop}
    (hmissing : p.file fd = none → Q missing p.file)
    (hop : ∀ {f s a f' t}, p.file fd = some f → op f s = .ok ((a, f'), t) → Q a (put p.file fd f')) :
    Ensures (withFile fd missing op) p fun a q => Q a q.file ∧ q.Tidy ∧ q.nextFd = p.nextFd := by
  intro a q hrun
  cases hf : p.file fd with
  | none =>
    rw [withFile_missing hf] at hrun
    cases hrun
    exact ⟨hmissing hf, h, rfl⟩
  | some f =>
    cases hres : op f p.filesys with
    | error e =>
      rw [withFile_error hf hres] at hrun
      cases hrun
    | ok r =>
      obtain ⟨_, _, hrun', rfl, hq, hfile, hn⟩ := withFile_ok missing h hf hres
      rw [hrun] at hrun'
      cases hrun'
      rw [hfile]
      exact ⟨hop hf hres, hq, hn⟩

end WithFile

lemma onFilesys_inv {α : Type} {m : FsM α} {a : α} (h : onFilesys m p = .ok (a, q)) :
    ∃ s, m p.filesys = .ok (a, s) ∧ q = { p with filesys := s } := by
  cases hm : m p.filesys with
  | error e => simp [onFilesys, hm] at h
  | ok r =>
    obtain ⟨rfl, rfl⟩ : r.1 = a ∧ { p with filesys := r.2 } = q := by simpa [onFilesys, hm] using h
    exact ⟨_, rfl, rfl⟩

def add (p : Process) (malloc : Malloc) (f : File) : Process :=
  { p with
    openFiles := p.openFiles ++ [⟨malloc (p.openFiles.map FileDescriptor.elem), f, p.nextFd⟩]
    nextFd := (p.nextFd + 1).bmod (2 ^ 32) }

section Add

variable {malloc : Malloc} (h : p.Tidy)

include h

lemma Tidy.fresh : p.nextFd ∉ p.openFiles.map FileDescriptor.fd := by
  intro hmem
  obtain ⟨d, hd, he⟩ := List.mem_map.mp hmem
  exact absurd (h.fds d hd).2 (by omega)

lemma Tidy.add (hm : ∀ used, malloc used ∉ used) (f : File) (h₀ : 2 ≤ p.nextFd) (h₁ : p.nextFd + 1 < 2 ^ 31) :
    (p.add malloc f).Tidy ∧ (p.add malloc f).nextFd = p.nextFd + 1 := by
  have hnext : (p.nextFd + 1).bmod (2 ^ 32) = p.nextFd + 1 := by
    rw [Int.bmod_def]
    omega
  refine ⟨⟨?_, ?_, ?_⟩, hnext⟩
  · intro d hd
    simp only [Process.add, hnext]
    rcases List.mem_append.mp hd with hd | hd
    · have := h.fds d hd
      omega
    · obtain rfl := List.mem_singleton.mp hd
      simp only
      omega
  · rw [Process.add, List.map_append]
    exact h.nodup.append (List.nodup_singleton _) (List.disjoint_singleton.mpr h.fresh)
  · rw [Process.add, List.map_append]
    exact h.elems.append (List.nodup_singleton _) (List.disjoint_singleton.mpr (hm _))

lemma Tidy.file_add (f : File) : (p.add malloc f).file = put p.file p.nextFd (some f) := by
  funext fd
  rw [file, Process.add, find?_key_append FileDescriptor.fd h.fresh, put_apply]
  split <;> rfl

end Add

lemma put_file_same {f : File} (h : p.file fd = some f) : put p.file fd (some f) = p.file := by
  rw [put_eq_update, ← h, Function.update_eq_self]

/-! The effect of each call. -/

lemma filesysOpen_file (name : Name) (s : Filesys) :
    Ensures (filesysOpen name) s fun r _ => ∀ f, r = some f → ∃ inode, f = ⟨inode, 0, false⟩ := by
  rw [filesysOpen]
  refine Ensures.bind (P := fun _ _ => True) (fun _ _ _ => trivial) fun dir _ _ => ?_
  refine Ensures.bind (P := fun _ _ => True) (fun _ _ _ => trivial) fun inode _ _ => ?_
  refine Ensures.bind (P := fun _ _ => True) (fun _ _ _ => trivial) fun _ _ _ => Ensures.pure ?_
  rintro f hf
  obtain ⟨k, -, rfl⟩ := Option.map_eq_some_iff.mp hf
  exact ⟨k, rfl⟩

structure After (p : Process) (call : Call) (o : Outcome) (q : Process) : Prop where
  effect : call.Effect p.file o q.file
  tidy : q.Tidy
  count : q.nextFd = p.nextFd ∧ openedFds [(call, o)] = [] ∨ q.nextFd = p.nextFd + 1 ∧
    openedFds [(call, o)] = [p.nextFd]

variable {malloc : Malloc} {o : Outcome}

lemma openFile_after (h : p.Tidy) (hm : ∀ used, malloc used ∉ used) (h₀ : 2 ≤ p.nextFd) {name : Name}
    (h₁ : openedFds [(.openFile name, o)] ≠ [] → p.nextFd + 1 < 2 ^ 31)
    (hrun : (Call.openFile name).run malloc p = .ok (o, q)) : After p (.openFile name) o q := by
  obtain ⟨fd, t, hopen, hrun⟩ := bind_inv hrun
  cases hrun
  obtain ⟨r, u, hlift, hopen⟩ := bind_inv hopen
  obtain ⟨s, hfs, rfl⟩ := onFilesys_inv hlift
  have hs : Tidy { p with filesys := s } := ⟨h.fds, h.nodup, h.elems⟩
  cases r with
  | none =>
    cases hopen
    exact ⟨.inl ⟨rfl, rfl⟩, hs, .inl ⟨rfl, rfl⟩⟩
  | some f =>
    obtain ⟨inode, rfl⟩ := filesysOpen_file name _ _ _ hfs f rfl
    obtain ⟨rfl, rfl⟩ : p.nextFd = fd ∧ add { p with filesys := s } malloc ⟨inode, 0, false⟩ = q := by
      have hadd : addFileToCurrentThread malloc ⟨inode, 0, false⟩ { p with filesys := s } =
        .ok (p.nextFd, add { p with filesys := s } malloc ⟨inode, 0, false⟩) := rfl
      simpa [hadd] using hopen
    have hfds : openedFds [(.openFile name, ⟨some p.nextFd, []⟩)] = [p.nextFd] := by
      have hne : p.nextFd ≠ -1 := by omega
      simp [openedFds, Option.filter, hne]
    obtain ⟨ht, hn⟩ := hs.add hm ⟨inode, 0, false⟩ h₀ (h₁ (by simp [hfds]))
    refine ⟨.inr ⟨p.nextFd, inode, h₀, ?_, rfl, hs.file_add _⟩, ht, .inr ⟨hn, hfds⟩⟩
    rw [file, find?_key_eq_none.mpr h.fresh]
    rfl

lemma after_of_withFile {α : Type} (fd : ℤ) (missing : α) (op : File → FsM (α × Option File))
    (toOutcome : α → Outcome) (h : p.Tidy) {call : Call} (hcall : ∀ name, call ≠ .openFile name)
    (hrun : call.run malloc p = (withFile fd missing op >>= fun a => pure (toOutcome a)) p)
    (hr : call.run malloc p = .ok (o, q))
    (hmissing : p.file fd = none → call.Effect p.file (toOutcome missing) p.file)
    (hop : ∀ {f s a f' t}, p.file fd = some f → op f s = .ok ((a, f'), t) →
      call.Effect p.file (toOutcome a) (put p.file fd f')) : After p call o q := by
  rw [hrun] at hr
  obtain ⟨a, t, hw, hr⟩ := bind_inv hr
  cases hr
  obtain ⟨he, ht, hn⟩ :=
    withFile_ensures (Q := fun a files' => call.Effect p.file (toOutcome a) files') h hmissing hop _ _ hw
  refine ⟨he, ht, .inl ⟨hn, ?_⟩⟩
  cases call with
  | openFile name => exact absurd rfl (hcall name)
  | filesize | read | write | seek | tell | close => rfl

lemma fileRead_pos {f f' : File} {size : ℤ} {bytes : List UInt8} {s t : Filesys}
    (h : fileRead f size s = .ok ((bytes, f'), t)) :
    f' = { f with pos := f.pos + bytes.length } := by
  obtain ⟨_, u, -, h⟩ := bind_inv h
  cases h
  rfl

lemma inodeWriteAt_nonneg (k : BlockSector) (buffer : List UInt8) (offset : ℕ) (s : Filesys) :
    Ensures (inodeWriteAt k buffer offset) s fun n _ => 0 ≤ n := by
  have hout : ∀ s, Ensures (writeOut k buffer offset) s fun n _ => 0 ≤ n := by
    intro s
    rw [writeOut]
    refine Ensures.bind (P := fun _ _ => True) (fun _ _ _ => trivial) fun inode _ _ => ?_
    refine Ensures.bind (P := fun _ _ => True) (fun _ _ _ => trivial) fun written _ _ => ?_
    refine Ensures.bind (P := fun _ _ => True) (fun _ _ _ => trivial) fun _ _ _ => ?_
    refine Ensures.bind (P := fun _ _ => True) (fun _ _ _ => trivial) fun _ _ _ =>
      Ensures.pure (Int.natCast_nonneg written)
  rw [inodeWriteAt, inodeWriteAtWith]
  refine Ensures.bind (P := fun _ _ => True) (fun _ _ _ => trivial) fun inode _ _ => ?_
  refine Ensures.ite (fun _ => Ensures.pure le_rfl) fun _ => Ensures.ite (fun _ => ?_) fun _ => hout _
  exact Ensures.bind (P := fun _ _ => True) (fun _ _ _ => trivial) fun _ _ _ => hout _

lemma fileWrite_pos {f f' : File} {buffer : List UInt8} {n : ℤ} {s t : Filesys}
    (h : fileWrite f buffer s = .ok ((n, f'), t)) :
    ∃ m : ℕ, n = m ∧ f' = { f with pos := f.pos + m } := by
  obtain ⟨_, u, hw, h⟩ := bind_inv h
  cases h
  have hnonneg := inodeWriteAt_nonneg _ _ _ _ _ _ hw
  obtain ⟨m, rfl⟩ := Int.eq_ofNat_of_zero_le hnonneg
  exact ⟨m, rfl, rfl⟩

lemma read_withFile {fd : ℤ} (length : ℕ) (hstdin : fd ≠ stdinFileno) :
    ∃ op, Syscall.read fd length = withFile fd (-1, []) op ∧
    ∀ {f s r f' t}, op f s = .ok ((r, f'), t) →
    r.1 = r.2.length ∧ f' = some { f with pos := f.pos + r.2.length } := by
  refine ⟨_, if_neg hstdin, ?_⟩
  intro f s r f' t hop
  obtain ⟨⟨bytes, f₁⟩, u, hread, hop⟩ := bind_inv hop
  cases hop
  exact ⟨rfl, congrArg some (fileRead_pos hread)⟩

lemma write_withFile {fd : ℤ} (buffer : List UInt8) (hstdout : fd ≠ stdoutFileno) :
    ∃ op, Syscall.write fd buffer = withFile fd (-1) op ∧
      ∀ {f s n f' t}, op f s = .ok ((n, f'), t) → ∃ m : ℕ, n = m ∧ f' = some { f with pos := f.pos + m } := by
  refine ⟨_, if_neg hstdout, ?_⟩
  intro f s n f' t hop
  obtain ⟨⟨written, f₁⟩, u, hwrite, hop⟩ := bind_inv hop
  cases hop
  obtain ⟨m, rfl, rfl⟩ := fileWrite_pos hwrite
  exact ⟨m, rfl, rfl⟩

lemma after_of_same (h : p.Tidy) {call : Call} (hcall : ∀ name, call ≠ .openFile name)
    (he : call.Effect p.file o p.file)
    (hfiles : q.openFiles = p.openFiles) (hn : q.nextFd = p.nextFd) : After p call o q := by
  have hfile : q.file = p.file := by
    funext fd
    rw [file, hfiles, file]
  refine ⟨by rwa [hfile], h.of_sublist (by rw [hfiles]) hn, .inl ⟨hn, ?_⟩⟩
  cases call with
  | openFile name => exact absurd rfl (hcall name)
  | filesize | read | write | seek | tell | close => rfl

lemma readInput_same (length : ℕ) (p : Process) :
    Ensures (readInput length) p fun _ q => q.openFiles = p.openFiles ∧ q.nextFd = p.nextFd := by
  induction length generalizing p with
  | zero => exact Ensures.pure ⟨rfl, rfl⟩
  | succ length ih =>
    rw [readInput]
    refine Ensures.bind (P := fun _ q => q.openFiles = p.openFiles ∧ q.nextFd = p.nextFd) ?_ fun c q hq => ?_
    · rintro c q ⟨⟩
      exact ⟨rfl, rfl⟩
    · refine (ih q).bind fun cs r hr => Ensures.pure ?_
      exact ⟨hr.1.trans hq.1, hr.2.trans hq.2⟩

lemma run_after (h : p.Tidy) (hm : ∀ used, malloc used ∉ used) (h₀ : 2 ≤ p.nextFd) {call : Call}
    (h₁ : openedFds [(call, o)] ≠ [] → p.nextFd + 1 < 2 ^ 31)
    (hseek : ∀ fd position, call = .seek fd position → position < 2 ^ 31)
    (hrun : call.run malloc p = .ok (o, q)) : After p call o q := by
  cases call with
  | openFile name => exact openFile_after h hm h₀ h₁ hrun
  | filesize fd =>
    refine after_of_withFile fd _ _ (fun n => ⟨some n, []⟩) h (by simp) rfl hrun ?_ ?_
    · exact fun hf => ⟨rfl, fun _ => rfl⟩
    · intro f s n f' t hf hop
      obtain ⟨_, u, -, hop⟩ := bind_inv hop
      cases hop
      exact ⟨put_file_same hf, fun hnone => by simp [hf] at hnone⟩
  | read fd length =>
    by_cases hstdin : fd = stdinFileno
    · obtain ⟨_, t, hread, hrun⟩ := bind_inv hrun
      cases hrun
      rw [Syscall.read, if_pos hstdin] at hread
      obtain ⟨bytes, u, hinput, hread⟩ := bind_inv hread
      simp only [pure_run, Except.ok.injEq, Prod.mk.injEq] at hread
      obtain ⟨-, rfl⟩ := hread
      obtain ⟨hfiles, hn⟩ := readInput_same _ _ _ _ hinput
      refine after_of_same h (by simp) ?_ hfiles hn
      simp [Call.Effect, hstdin]
    · obtain ⟨op, hcode, hspec⟩ := read_withFile length hstdin
      refine after_of_withFile fd (-1, []) op (fun r => ⟨some r.1, r.2⟩) h (by simp) ?_ hrun ?_ ?_
      · rw [Call.run, hcode]
      · intro hf
        simp [Call.Effect, hstdin, hf]
      · intro f s r f' t hf hop
        obtain ⟨hlen, rfl⟩ := hspec hop
        simp [Call.Effect, hstdin, hf, hlen]
  | write fd buffer =>
    by_cases hstdout : fd = stdoutFileno
    · obtain ⟨_, t, hwrite, hrun⟩ := bind_inv hrun
      cases hrun
      rw [Syscall.write, if_pos hstdout] at hwrite
      simp only [bind_modify, pure_run, Except.ok.injEq, Prod.mk.injEq] at hwrite
      obtain ⟨-, rfl⟩ := hwrite
      refine after_of_same h (by simp) ?_ rfl rfl
      simp [Call.Effect, hstdout]
    · obtain ⟨op, hcode, hspec⟩ := write_withFile buffer hstdout
      refine after_of_withFile fd (-1) op (fun n => ⟨some n, []⟩) h (by simp) ?_ hrun ?_ ?_
      · rw [Call.run, hcode]
      · intro hf
        simp [Call.Effect, hstdout, hf]
      · intro f s n f' t hf hop
        obtain ⟨m, rfl, rfl⟩ := hspec hop
        simp [Call.Effect, hstdout, hf]
  | seek fd position =>
    refine after_of_withFile fd _ _ (fun _ => ⟨none, []⟩) h (by simp) rfl hrun ?_ ?_
    · intro hf
      simp [Call.Effect, hf]
    · intro f s n f' t hf hop
      obtain ⟨f₁, u, hseek', hop⟩ := bind_inv hop
      cases hop
      rw [fileSeek, offT_natCast (hseek fd position rfl), if_neg (by omega)] at hseek'
      cases hseek'
      simp [Call.Effect, hf]
  | tell fd =>
    refine after_of_withFile fd _ _ (fun n => ⟨some n, []⟩) h (by simp) rfl hrun ?_ ?_
    · intro hf
      simp [Call.Effect, hf]
    · intro f s n f' t hf hop
      cases hop
      simp [Call.Effect, hf, put_file_same hf]
  | close fd =>
    refine after_of_withFile fd _ _ (fun _ => ⟨none, []⟩) h (by simp) rfl hrun ?_ ?_
    · intro hf
      rw [Call.Effect, put_eq_update, ← hf, Function.update_eq_self]
    · intro f s n f' t hf hop
      obtain ⟨_, u, -, hop⟩ := bind_inv hop
      cases hop
      rfl

/-! Runs, and the end of the process. -/

structure New (p : Process) : Prop where
  openFiles : p.openFiles = []
  nextFd : p.nextFd = 2

structure Kept (p : Process) (trace : Trace) (q : Process) : Prop where
  tidy : q.Tidy
  effects : Effects p.file trace q.file
  nextFd : q.nextFd = 2 + (openedFds trace).length
  opened : openedFds trace = (List.range (openedFds trace).length).map fun i : ℕ => 2 + (i : ℤ)

lemma New.kept (h : p.New) : Kept p [] p where
  tidy := by
    refine ⟨?_, ?_, ?_⟩ <;> simp [h.openFiles]
  effects := .nil
  nextFd := h.nextFd
  opened := rfl

lemma openedFds_snoc (trace : Trace) (call : Call) (o : Outcome) :
    openedFds (trace ++ [(call, o)]) = openedFds trace ++ openedFds [(call, o)] := List.filterMap_append

lemma Kept.call {r : Process} {trace : Trace} {call : Call} (h : Kept p trace q) (ha : After q call o r) :
    Kept p (trace ++ [(call, o)]) r where
  tidy := ha.tidy
  effects := h.effects.snoc ha.effect
  nextFd := by
    have hn := h.nextFd
    rw [openedFds_snoc, List.length_append]
    rcases ha.count with ⟨hr, ho⟩ | ⟨hr, ho⟩
    · simp [hr, ho, hn]
    · simp [hr, ho, hn, add_assoc]
  opened := by
    rw [openedFds_snoc]
    rcases ha.count with ⟨hr, ho⟩ | ⟨hr, ho⟩
    · rw [ho, List.append_nil]
      exact h.opened
    · rw [ho, List.length_append, List.length_singleton, List.range_succ, List.map_append, ← h.opened, h.nextFd]
      rfl

lemma run_kept {trace : Trace} (hp : p.New) (hm : ∀ used, malloc used ∉ used) (hrun : Run malloc p trace q)
    (hopens : (openedFds trace).length < 2 ^ 31 - 2)
    (hseeks : ∀ c ∈ trace, ∀ fd position, c.1 = .seek fd position → position < 2 ^ 31) : Kept p trace q := by
  induction hrun with
  | nil => exact hp.kept
  | others s _ ih =>
    have h := ih hopens hseeks
    exact ⟨⟨h.tidy.fds, h.tidy.nodup, h.tidy.elems⟩, h.effects, h.nextFd, h.opened⟩
  | @call trace q r call o _ hcall ih =>
    rw [openedFds_snoc, List.length_append] at hopens
    have h := ih (by omega) fun c hc => hseeks c (List.mem_append_left _ hc)
    have hn := h.nextFd
    refine h.call (run_after h.tidy hm (by omega) (fun hne => ?_) (fun fd position he => ?_) hcall)
    · have := List.length_pos_iff.mpr hne
      omega
    · exact hseeks (call, o) (List.mem_append_right _ (List.mem_singleton_self _)) fd position he

def closeEach : List File → FsM Unit
  | [] => return
  | f :: fs => do
    fileClose f
    closeEach fs

lemma onFilesys_ok {α : Type} {m : FsM α} {a : α} {s : Filesys} (h : m p.filesys = .ok (a, s)) :
    onFilesys m p = .ok (a, { p with filesys := s }) := by simp [onFilesys, h]

lemma onFilesys_error {α : Type} {m : FsM α} {e : Fault} (h : m p.filesys = .error e) :
    onFilesys m p = .error e := by
  simp [onFilesys, h]

lemma Tidy.close_head {ds : List FileDescriptor} (h : p.Tidy) (hp : p.openFiles = d :: ds) : close d.fd p =
    (do
      onFilesys (fileClose d.file)
      modify fun q : Process => { q with openFiles := ds }) p := by
  have hd : p.openFiles.find? (fun x => x.fd = d.fd) = some d := by rw [hp, List.find?_cons_of_pos (by simp)]
  have hrest : Syscall.listRemove d.elem p.openFiles = ds := by
    have helems := h.elems
    rw [hp, List.map_cons, List.nodup_cons] at helems
    rw [hp, Syscall.listRemove, List.filter_cons_of_neg (by simp), List.filter_eq_self]
    intro x hx
    have hne : x.elem ≠ d.elem := fun he => helems.1 (he ▸ List.mem_map_of_mem hx)
    simpa using hne
  rw [close, withFile, getFileFromCurrentThread, bind_assoc_run, bind_get]
  simp only [hd, bind_pure_run]
  cases hc : fileClose d.file p.filesys with
  | error e =>
    rw [bind_error (onFilesys_error hc)]
    exact bind_error (onFilesys_error ((bind_error hc)))
  | ok r =>
    rw [bind_ok (onFilesys_ok hc)]
    refine (bind_ok (onFilesys_ok (a := ((), none)) (s := r.2) (bind_ok hc))).trans ?_
    simp only [bind_modify, hrest, pure_run, modify_run]

lemma closeAllFrom_eq (ds : List FileDescriptor) (h : p.Tidy) (hp : p.openFiles = ds) :
    closeAllFrom ds.length (ds.head?.map FileDescriptor.elem) p =
      (do
        onFilesys (closeEach (ds.map FileDescriptor.file))
        modify fun q : Process => { q with openFiles := [] }) p := by
  -- the walk closes what it finds, and has gone on before it frees the element that led there
  induction ds generalizing p with
  | nil =>
    have hsame : { p with openFiles := [] } = p := by rw [← hp]
    simp only [closeAllFrom, List.map_nil, closeEach, List.length_nil, List.head?_nil, Option.map_none]
    refine Eq.trans ?_ (bind_ok (onFilesys_ok (pure_run _ _))).symm
    exact congrArg (fun q => Except.ok ((), q)) hsame.symm
  | cons d ds ih =>
    have hnext : listNext p.openFiles d.elem = some (d, ds.head?.map FileDescriptor.elem) := by
      rw [hp, listNext, if_pos rfl]
    simp only [List.length_cons, List.head?_cons, Option.map_some, closeAllFrom, bind_get, hnext]
    have hclose := h.close_head hp
    cases hc : fileClose d.file p.filesys with
    | error e =>
      rw [bind_error (hclose.trans (bind_error (onFilesys_error hc)))]
      have hall : closeEach ((d :: ds).map FileDescriptor.file) p.filesys = .error e := bind_error hc
      exact (bind_error (onFilesys_error hall)).symm
    | ok r =>
      have hstep :
        closeEach ((d :: ds).map FileDescriptor.file) p.filesys = closeEach (ds.map FileDescriptor.file) r.2 :=
        bind_ok hc
      have htail : Tidy { p with filesys := r.2, openFiles := ds } :=
        h.of_sublist (by rw [hp]; exact List.sublist_cons_self d ds) rfl
      rw [bind_ok (hclose.trans (bind_ok (onFilesys_ok hc)))]
      refine (ih htail rfl).trans ?_
      cases hrest : closeEach (ds.map FileDescriptor.file) r.2 with
      | error e =>
        rw [bind_error (onFilesys_error hrest)]
        exact (bind_error (onFilesys_error (hstep.trans hrest))).symm
      | ok r' =>
        rw [bind_ok (onFilesys_ok hrest), bind_ok (onFilesys_ok (hstep.trans hrest))]
        rfl

lemma run_missing {call : Call} (hd : call.descriptor = some fd) (hf : p.file fd = none) :
    call.run malloc p = .ok (call.missing, p) := by
  cases call with
  | openFile name => cases hd
  | filesize _ | seek _ _ | tell _ | close _ =>
    cases hd
    exact bind_ok (withFile_missing hf)
  | read fd' length =>
    simp only [Call.descriptor] at hd
    split at hd
    · cases hd
    · next hne =>
      cases hd
      rw [Call.run, Syscall.read, if_neg hne]
      exact bind_ok (withFile_missing hf)
  | write fd' buffer =>
    simp only [Call.descriptor] at hd
    split at hd
    · cases hd
    · next hne =>
      cases hd
      rw [Call.run, Syscall.write, if_neg hne]
      exact bind_ok (withFile_missing hf)

lemma withFile_returns_iff {α : Type} {missing : α} {op : File → FsM (α × Option File)} {f : File} (h : p.Tidy)
    (hf : p.file fd = some f) :
    Returns (withFile fd missing op) p (fun _ _ => True) ↔ Returns (op f) p.filesys fun _ _ => True := by
  refine ⟨?_, ?_⟩
  · rintro ⟨a, t, hrun, -⟩
    cases hop : op f p.filesys with
    | error e =>
      rw [withFile_error hf hop] at hrun
      cases hrun
    | ok r => exact ⟨_, _, hop, trivial⟩
  · rintro ⟨r, s, hop, -⟩
    exact (withFile_ok missing h hf hop).mono fun _ _ _ => trivial

lemma run_returns_iff (h : p.Tidy) {call : Call} (hd : call.descriptor = some fd) {f : File}
    (hf : p.file fd = some f) :
    Returns (call.run malloc) p (fun _ _ => True) ↔ Returns (call.work f) p.filesys fun _ _ => True := by
  cases call with
  | openFile name => cases hd
  | filesize _ | seek _ _ =>
    cases hd
    exact (Returns.bind_pure_iff _).trans ((withFile_returns_iff h hf).trans
      ((Returns.bind_pure_iff _).trans (Returns.bind_pure_iff _).symm))
  | tell _ =>
    cases hd
    exact (Returns.bind_pure_iff _).trans ((withFile_returns_iff h hf).trans
      (iff_of_true (Returns.pure trivial) (Returns.pure trivial)))
  | close _ =>
    cases hd
    exact (Returns.bind_pure_iff _).trans ((withFile_returns_iff h hf).trans (Returns.bind_pure_iff _))
  | read fd' length =>
    simp only [Call.descriptor] at hd
    split at hd
    · cases hd
    · next hne =>
      cases hd
      rw [Call.run, Syscall.read, if_neg hne]
      exact (Returns.bind_pure_iff _).trans ((withFile_returns_iff h hf).trans
        ((Returns.bind_pure_iff _).trans (Returns.bind_pure_iff _).symm))
  | write fd' buffer =>
    simp only [Call.descriptor] at hd
    split at hd
    · cases hd
    · next hne =>
      cases hd
      rw [Call.run, Syscall.write, if_neg hne]
      exact (Returns.bind_pure_iff _).trans ((withFile_returns_iff h hf).trans
        ((Returns.bind_pure_iff _).trans (Returns.bind_pure_iff _).symm))

end Process

/-! What never was open, or has been closed, stays closed. -/

lemma Call.Effect.stays_none {files files' : ℤ → Option File} {call : Call} {o : Outcome} {fd : ℤ}
    (h : call.Effect files o files')
    (hf : files fd = none) (hn : fd ∉ openedFds [(call, o)]) : files' fd = none := by
  have hput : ∀ {fd' f} {x : Option File}, files fd' = some f → put files fd' x fd = none := by
    intro fd' f x hopen
    rw [put_of_ne _ _ (by rintro rfl; simp [hf] at hopen), hf]
  cases call with
  | openFile name =>
    rcases h with ⟨-, rfl⟩ | ⟨fd', inode, hge, -, rfl, rfl⟩
    · exact hf
    · have hne : fd' ≠ -1 := by omega
      rw [put_of_ne _ _ (by rintro rfl; simp [openedFds, Option.filter, hne] at hn), hf]
  | filesize fd' =>
    obtain ⟨rfl, -⟩ := h
    exact hf
  | tell fd' =>
    obtain ⟨rfl, -⟩ := h
    exact hf
  | read fd' length =>
    simp only [Call.Effect] at h
    split at h
    · rw [h, hf]
    · split at h
      · rw [h.2, hf]
      · next hopen =>
        rw [h.2]
        exact hput hopen
  | write fd' buffer =>
    simp only [Call.Effect] at h
    split at h
    · rw [h, hf]
    · split at h
      · rw [h.2, hf]
      · next hopen =>
        obtain ⟨n, -, rfl⟩ := h
        exact hput hopen
  | seek fd' position =>
    simp only [Call.Effect] at h
    split at h
    · rw [h, hf]
    · next hopen =>
      rw [h]
      exact hput hopen
  | close fd' =>
    obtain rfl : files' = put files fd' none := h
    rw [put_apply]
    split
    · rfl
    · exact hf

namespace Effects

variable {trace : Trace} {files : ℤ → Option File} {fd : ℤ}

lemma unopened (h : Effects (fun _ => none) trace files) (hfd : fd ∉ openedFds trace) : files fd = none := by
  induction h with
  | nil => rfl
  | snoc _ he ih =>
    rw [Process.openedFds_snoc, List.mem_append, not_or] at hfd
    exact he.stays_none (ih hfd.1) hfd.2

lemma closed (h : Effects (fun _ => none) trace files) (hn : (openedFds trace).Nodup) {before after : Trace}
    {o : Outcome}
    (ht : trace = before ++ (.close fd, o) :: after) (hfd : fd ∈ openedFds before) : files fd = none := by
  induction h generalizing after with
  | nil => simp at ht
  | @snoc trace call o' files' files'' _ he ih =>
    rw [Process.openedFds_snoc] at hn
    rcases List.eq_nil_or_concat after with rfl | ⟨after, x, rfl⟩
    · -- the close is the last call
      obtain ⟨-, hlast⟩ := List.append_inj' ht rfl
      obtain ⟨rfl, -⟩ : call = .close fd ∧ o' = o := by simpa using hlast
      obtain rfl : files'' = put files' fd none := he
      exact put_self _ _ _
    · rw [List.concat_eq_append, ← List.cons_append, ← List.append_assoc] at ht
      obtain ⟨rfl, -⟩ := List.append_inj' ht rfl
      have hmem : fd ∈ openedFds (before ++ (.close fd, o) :: after) := by
        rw [openedFds, List.filterMap_append]
        exact List.mem_append_left _ hfd
      refine he.stays_none (ih (List.nodup_append.mp hn).1 rfl) fun hnew => ?_
      exact (List.nodup_append.mp hn).2.2 fd hmem fd hnew rfl

end Effects

/-- The descriptors of a process are a map to open files with positions of their own. -/
structure Independent (malloc : Malloc) (trace : Trace) (q : Process) : Prop where
  numbers : ∀ fd ∈ openedFds trace, 2 ≤ fd
  distinct : (openedFds trace).Nodup
  effects : Effects (fun _ => none) trace q.file
  unopened : ∀ fd, fd ∉ openedFds trace → q.file fd = none
  closed : ∀ before after fd o, trace = before ++ (.close fd, o) :: after → fd ∈ openedFds before →
    q.file fd = none
  missing : ∀ (call : Call) (fd : ℤ), call.descriptor = some fd → q.file fd = none →
    call.run malloc q = .ok (call.missing, q)
  returns : ∀ (call : Call) (fd : ℤ) (f : File), call.descriptor = some fd → q.file fd = some f →
    (Returns (call.run malloc) q (fun _ _ => True) ↔ Returns (call.work f) q.filesys fun _ _ => True)
  listed : (q.openFiles.map FileDescriptor.fd).Nodup ∧ ∀ fd f, q.file fd = some f ↔ ∃ d ∈ q.openFiles,
    d.fd = fd ∧ d.file = f
  closeAll : closeAllFilesOfCurrentThread q =
    (do
      onFilesys (Process.closeEach (q.openFiles.map FileDescriptor.file))
      modify fun q : Process => { q with openFiles := [] }) q

/-- In every run of a process, whatever others do to the file system meanwhile, its descriptors are independent of
each other; `close_all_files_of_current_thread` then closes each open file once. -/
theorem descriptors_independent (malloc : Malloc) (p q : Process) (trace : Trace) (hp : p.New)
    (hm : ∀ used, malloc used ∉ used)
    (hrun : Run malloc p trace q) (hopens : (openedFds trace).length < 2 ^ 31 - 2)
    (hseeks : ∀ c ∈ trace, ∀ fd position, c.1 = .seek fd position → position < 2 ^ 31) :
    Independent malloc trace q := by
  have h := Process.run_kept hp hm hrun hopens hseeks
  have hnone : p.file = fun _ => none := by
    funext fd
    rw [Process.file, hp.openFiles]
    rfl
  have heffects := h.effects
  rw [hnone] at heffects
  have hdistinct : (openedFds trace).Nodup := by
    rw [h.opened]
    exact List.nodup_range.map fun i j he => by simpa using he
  refine ⟨?_, hdistinct, heffects, fun fd => heffects.unopened, fun _ _ _ _ ht => heffects.closed hdistinct ht,
    fun _ _ => Process.run_missing, fun _ _ _ hd hf => Process.run_returns_iff h.tidy hd hf,
    ⟨h.tidy.nodup, ?_⟩, ?_⟩
  · intro fd hfd
    rw [h.opened] at hfd
    obtain ⟨i, -, rfl⟩ := List.mem_map.mp hfd
    omega
  · intro fd f
    rw [Process.file, Option.map_eq_some_iff]
    refine exists_congr fun d => ?_
    rw [find?_key_iff h.tidy.nodup, and_assoc]
  · exact Process.closeAllFrom_eq q.openFiles h.tidy rfl

/-! A directory with the one file `a`. -/

def playCalls (malloc : Malloc) : List Call → Process → Except Fault (Trace × Process)
  | [], p => .ok ([], p)
  | call :: calls, p => do
    let (o, q) ← call.run malloc p
    let (trace, r) ← playCalls malloc calls q
    return ((call, o) :: trace, r)

lemma run_of_playCalls {malloc : Malloc} {p q r : Process} {trace trace' : Trace} {calls : List Call}
    (h : Run malloc p trace q)
    (hp : playCalls malloc calls q = .ok (trace', r)) : Run malloc p (trace ++ trace') r := by
  induction calls generalizing q trace trace' with
  | nil =>
    cases hp
    rwa [List.append_nil]
  | cons call calls ih =>
    cases hc : call.run malloc q with
    | error e => simp [playCalls, hc, bind, Except.bind] at hp
    | ok s =>
      cases hrest : playCalls malloc calls s.2 with
      | error e => simp [playCalls, hc, hrest, bind, Except.bind] at hp
      | ok t =>
        obtain ⟨rfl, rfl⟩ : (call, s.1) :: t.1 = trace' ∧ t.2 = r := by
          simpa [playCalls, hc, hrest, bind, Except.bind, pure, Except.pure] using hp
        rw [List.append_cons]
        exact ih (h.call hc) hrest

def entrySector : Sector :=
  Block.ofBytes fun i => if i = 0 then 5 else if i = 4 then 97 else if i = 19 then 1 else 0

def rootInode : Inode :=
  ⟨Layout.inodeData ⟨1, fun _ => 3, fun _ => 0⟩ 20 true rootDirSector, rootDirSector, 1, false, 0, 20, false⟩

def newProcess : Process where
  filesys :=
    { oneByte with
      disk := { oneByte.disk with device := ⟨4096, put (fun _ => zeros) 3 entrySector⟩ }
      openInodes := put (fun _ => none) rootDirSector (some rootInode) }
  openFiles := []
  nextFd := 2
  input := fun _ => 0
  console := []

def sampleCalls : List Call :=
  [.openFile [97], .openFile [97], .openFile [98], .seek 2 7, .tell 2, .tell 3, .close 2, .tell 2]

def sampleOutcomes : List Outcome :=
  [⟨some 2, []⟩, ⟨some 3, []⟩, ⟨some (-1), []⟩, ⟨none, []⟩, ⟨some 7, []⟩, ⟨some 0, []⟩, ⟨none, []⟩,
    ⟨some (-1), []⟩]

def freshElem : Malloc := fun used => used.sum + 1

lemma freshElem_fresh (used : List ℕ) : freshElem used ∉ used := by
  intro hmem
  have := List.le_sum_of_mem hmem
  simp only [freshElem] at this
  omega

theorem descriptors_independent_sample : ∃ q, Run freshElem newProcess (sampleCalls.zip sampleOutcomes) q ∧
    Independent freshElem (sampleCalls.zip sampleOutcomes) q := by
  have hplay :
    (playCalls freshElem sampleCalls newProcess).toOption.map Prod.fst =
    some (sampleCalls.zip sampleOutcomes) := by
    decide +kernel
  obtain ⟨r, hr, htrace⟩ := Option.map_eq_some_iff.mp hplay
  have hcalls : playCalls freshElem sampleCalls newProcess = .ok r := by
    cases hp : playCalls freshElem sampleCalls newProcess with
    | error e =>
      rw [hp] at hr
      cases hr
    | ok r' =>
      rw [hp] at hr
      exact congrArg Except.ok (Option.some_injective _ hr)
  have hrun : Run freshElem newProcess (sampleCalls.zip sampleOutcomes) r.2 := by
    rw [← htrace]
    exact run_of_playCalls .nil hcalls
  refine ⟨r.2, hrun, descriptors_independent freshElem newProcess r.2 (sampleCalls.zip sampleOutcomes)
    ⟨rfl, rfl⟩ freshElem_fresh hrun (by decide) ?_⟩
  intro c hc fd position he
  have hall : ∀ c ∈ sampleCalls.zip sampleOutcomes, ∀ fd position, c.1 = .seek fd position →
    position < 2 ^ 31 := by
    simp [sampleCalls, sampleOutcomes]
  exact hall c hc fd position he

end CourseArchive.PintOS
