import CourseArchive.PintOS.Userprog.Arguments

/-! What `push_arguments` leaves on the stack, and how far down it writes. -/

namespace CourseArchive.PintOS

open Lib

structure Pushed (m : Memory) (top : ℕ) (args : List (List UInt8)) (p : Pushing) : Prop where
  esp : p.stack.esp = top - total args
  argc : p.argc = args.length
  length : p.argv.length = p.argvSize
  lt : p.argc < p.argvSize
  le : p.argvSize ≤ 2 * p.argc + 1
  argv : ∀ i < args.length, p.argv[i]? = some (some (slot top args i))
  strings : ∀ i (hi : i < args.length), Holds p.stack.mem (slot top args i) (args[i] ++ [0])
  frame : ∀ a, a < top - total args ∨ top ≤ a → p.stack.mem a = m a
  writes : ∀ w ∈ p.stack.writes, top - total args ≤ w.1 ∧ w.1 + w.2 ≤ top

lemma Pushed.start (m : Memory) (top : ℕ) : Pushed m top [] ⟨⟨m, top, []⟩, [none], 0, 1⟩ where
  esp := rfl
  argc := rfl
  length := rfl
  lt := Nat.one_pos
  le := le_rfl
  argv _ hi := absurd hi (Nat.not_lt_zero _)
  strings _ hi := absurd hi (Nat.not_lt_zero _)
  frame _ _ := rfl
  writes _ h := absurd h List.not_mem_nil

structure Grew (s : UserStack) (bytes : List UInt8) (s' : UserStack) : Prop where
  esp : s'.esp = s.esp - bytes.length
  new : Holds s'.mem s'.esp bytes
  above : ∀ {a xs}, Holds s.mem a xs → s.esp ≤ a → Holds s'.mem a xs
  frame : ∀ {a}, a < s'.esp ∨ s.esp ≤ a → s'.mem a = s.mem a
  writes : ∀ {r}, r ∈ s'.writes → r ∈ s.writes ∨ r = (s'.esp, bytes.length)
  last : (s'.esp, bytes.length) ∈ s'.writes

lemma UserStack.push_grew (s : UserStack) (bytes : List UInt8) (h : bytes.length ≤ s.esp) (hesp : s.esp < 2 ^ 32) :
    ∃ s', s.push bytes = s' ∧ Grew s bytes s' := by
  have hlower := lower_eq h hesp
  refine ⟨_, rfl, hlower, Holds.store bytes, fun hx ha => hx.store_of_ge ?_, fun ha => ?_, fun hr => ?_, ?_⟩
  · omega
  · rcases ha with ha | ha
    · exact store_apply_of_lt ha
    · exact store_apply_of_le (by omega)
  · rcases List.mem_append.mp hr with hr | hr
    · exact .inl hr
    · exact .inr (List.mem_singleton.mp hr)
  · exact List.mem_append_right _ (List.mem_singleton_self _)

lemma slot_append {top : ℕ} {args : List (List UInt8)} {w : List UInt8} {i : ℕ} (hi : i < args.length) :
    slot top (args ++ [w]) i = slot top args i := by
  rw [slot, slot, List.take_append_of_le_length hi]

lemma slot_last {top : ℕ} {args : List (List UInt8)} {w : List UInt8} :
    slot top (args ++ [w]) args.length = top - total (args ++ [w]) := by
  rw [slot, List.take_of_length_le (by simp)]

lemma le_slot (top : ℕ) (args : List (List UInt8)) (i : ℕ) : top - total args ≤ slot top args i := by
  have := total_take_le args (i + 1)
  rw [slot]
  omega

lemma getElem?_reallocArgv {argv : List (Option ℕ)} {size i : ℕ} (hi : i < size / 4) :
    (reallocArgv argv size)[i]? = some (argv.getD i none) := by
  simp [reallocArgv, hi]

variable {m : Memory} {top : ℕ} {args : List (List UInt8)} {p : Pushing}

lemma Pushed.push {w : List UInt8} {s : UserStack} (h : Pushed m top args p) (g : Grew p.stack (w ++ [0]) s)
    (hroom : total (args ++ [w]) ≤ top) :
    s.esp = top - total (args ++ [w]) ∧
    (∀ i (hi : i < (args ++ [w]).length), Holds s.mem (slot top (args ++ [w]) i) ((args ++ [w])[i] ++ [0])) ∧
    (∀ a, a < top - total (args ++ [w]) ∨ top ≤ a → s.mem a = m a) ∧
    ∀ r ∈ s.writes, top - total (args ++ [w]) ≤ r.1 ∧ r.1 + r.2 ≤ top := by
  have htotal : total (args ++ [w]) = total args + (w.length + 1) := by simp
  have hlength : (w ++ [0]).length = w.length + 1 := by simp
  have hold := h.esp
  have hesp : s.esp = top - total (args ++ [w]) := by
    have := g.esp
    omega
  refine ⟨hesp, fun i hi => ?_, fun a ha => ?_, fun r hr => ?_⟩
  · rcases Nat.lt_or_ge i args.length with hlt | hge
    · rw [slot_append hlt, List.getElem_append_left hlt]
      have := le_slot top args i
      exact g.above (h.strings i hlt) (by omega)
    · obtain rfl : i = args.length := by simp at hi; omega
      rw [slot_last, ← hesp, List.getElem_append_right le_rfl]
      simpa using g.new
  · rw [g.frame (by omega)]
    exact h.frame a (by omega)
  · rcases g.writes hr with hr | rfl
    · have := h.writes r hr
      omega
    · rw [hesp, hlength]
      simp only
      omega

lemma Pushed.pushArgument {w junk buf : List UInt8} {i : ℕ} (h : Pushed m top args p)
    (hbuf : buf.drop i = w ++ 0 :: junk)
    (h0 : 0 ∉ w) (hroom : total (args ++ [w]) ≤ top) (htop : top < 2 ^ 32) (hcount : args.length + 1 < 2 ^ 29) :
    ∃ p', pushArgument p buf i = some p' ∧ Pushed m top (args ++ [w]) p' := by
  have hargc := h.argc
  have hlength := h.length
  have hlt := h.lt
  have hle := h.le
  have hstrlen : strlen (buf.drop i) = some w.length := by rw [hbuf, strlen_append h0]
  have htake : (buf.drop i).take (w.length + 1) = w ++ [0] := by
    rw [hbuf, List.take_append]
    simp
  have hwidth : (w ++ [0]).length ≤ p.stack.esp := by
    have := h.esp
    rw [total_append, total_singleton] at hroom
    rw [List.length_append, List.length_singleton]
    omega
  obtain ⟨s, hs, hgrew⟩ := p.stack.push_grew _ hwidth (by have := h.esp; omega)
  obtain ⟨hesp, hstrings, hframe, hwrites⟩ := h.push hgrew hroom
  have hset : setArgv p.argv p.argc s.esp =
      some (p.argv.set args.length (some (slot top (args ++ [w]) args.length))) := by
    rw [setArgv, if_pos (by omega), hesp, slot_last, hargc]
  have hargv : ∀ j < args.length + 1,
      (p.argv.set args.length (some (slot top (args ++ [w]) args.length)))[j]? =
      some (some (slot top (args ++ [w]) j)) := by
    intro j hj
    rcases Nat.lt_or_ge j args.length with hj' | hj'
    · rw [List.getElem?_set_ne (by omega), h.argv j hj', slot_append hj']
    · obtain rfl : j = args.length := by omega
      exact List.getElem?_set_self (by omega)
  rw [CourseArchive.PintOS.pushArgument, hstrlen]
  simp only [Option.bind_eq_bind, Option.bind_some, htake, hs, hset]
  split
  case isTrue hfull =>
    -- the array is full, so `realloc` doubles it before the next entry is written
    refine ⟨_, rfl, ⟨hesp, by simp [hargc], ?_, ?_, ?_, fun j hj => ?_, hstrings, hframe, hwrites⟩⟩
    · simp only [reallocArgv, List.length_map, List.length_range]
      omega
    · simp only
      omega
    · simp only
      omega
    · have hj' : j < args.length + 1 := by simpa using hj
      simp only
      rw [getElem?_reallocArgv (by omega), List.getD, hargv j hj', Option.getD_some]
  case isFalse hfull =>
    refine ⟨_, rfl, ⟨hesp, by simp [hargc], ?_, ?_, ?_, fun j hj => ?_, hstrings, hframe, hwrites⟩⟩
    · simp [hlength]
    · simp only
      omega
    · simp only
      omega
    · exact hargv j (by simpa using hj)

lemma Pushed.pushTokens {fuel s : ℕ} {buf rest : List UInt8} (h : Pushed m top args p)
    (hbuf : buf.drop s = rest ++ [0])
    (h0 : 0 ∉ rest) (hroom : total (args ++ pieces 32 rest) ≤ top) (htop : top < 2 ^ 32)
    (hcount : (args ++ pieces 32 rest).length < 2 ^ 29) (hfuel : rest.length < fuel) :
    ∃ p', pushTokens fuel p buf s = some p' ∧ Pushed m top (args ++ pieces 32 rest) p' := by
  induction fuel generalizing p args s buf rest with
  | zero => omega
  | succ fuel ih =>
    rw [CourseArchive.PintOS.pushTokens]
    rcases strtokR_spec (d := 32) (by decide) hbuf h0 with
      ⟨hnone, t, ht, htoken⟩ | ⟨t, w, rest', ht, hy, hpieces, -, hw0, h0', hshort⟩
    · rw [hnone, List.append_nil, ht]
      simp only [Option.bind_eq_bind, Option.bind_some, htoken]
      exact ⟨p, rfl, h⟩
    · obtain ⟨i, junk, htoken, hdrop⟩ := hy.token
      have hassoc : args ++ pieces 32 rest = args ++ [w] ++ pieces 32 rest' := by rw [hpieces]; simp
      rw [hassoc] at hroom hcount ⊢
      obtain ⟨p', hp', hpushed⟩ := h.pushArgument hdrop hw0 (by rw [total_append] at hroom; omega) htop
        (by simp only [List.length_append, List.length_singleton] at hcount; omega)
      obtain ⟨p'', hp'', hdone⟩ := ih hpushed hy.rest h0' hroom hcount (by omega)
      refine ⟨p'', ?_, hdone⟩
      rw [ht]
      simp only [Option.bind_eq_bind, Option.bind_some, htoken, hp', hp'']

lemma mapM_id_map_some (xs : List ℕ) : (xs.map some).mapM id = some xs := by
  induction xs with
  | nil => rfl
  | cons x xs ih => simp [ih]

def pointers (top : ℕ) (args : List (List UInt8)) : List ℕ := (List.range args.length).map (slot top args) ++ [0]

lemma Pushed.readArgv (h : Pushed m top args p) :
    ∃ argv, setArgv p.argv p.argc 0 = some argv ∧ readArgv argv (p.argc + 1) = some (pointers top args) := by
  have hargc := h.argc
  have hlength := h.length
  have hlt := h.lt
  refine ⟨_, if_pos (by omega), ?_⟩
  have htake : (p.argv.set p.argc (some 0)).take (p.argc + 1) = (pointers top args).map some := by
    rw [hargc]
    refine List.ext_getElem? fun i => ?_
    rcases lt_trichotomy i args.length with hi | rfl | hi
    · rw [List.getElem?_take_of_lt (by omega), List.getElem?_set_ne (by omega), h.argv i hi, pointers]
      simp [List.getElem?_append_left, hi]
    · rw [List.getElem?_take_of_lt (by omega), List.getElem?_set_self (by omega), pointers]
      simp
    · rw [List.getElem?_eq_none (by simp; omega), List.getElem?_eq_none (by simp [pointers]; omega)]
  rw [CourseArchive.PintOS.readArgv, if_pos (by rw [List.length_set]; omega), htake, mapM_id_map_some]

@[simp] lemma length_pointers (top : ℕ) (args : List (List UInt8)) :
    (pointers top args).length = args.length + 1 := by
  simp [pointers]

lemma length_flatMap_le32 (xs : List ℕ) : (xs.flatMap le32).length = 4 * xs.length := by
  induction xs with
  | nil => rfl
  | cons x xs ih =>
    rw [List.flatMap_cons, List.length_append, ih, length_le32, List.length_cons]
    omega

structure Finished (m : Memory) (top : ℕ) (args : List (List UInt8)) (s : UserStack) : Prop where
  esp : s.esp = top - stackSpace top args
  argc : Holds s.mem (s.esp + 4) (le32 args.length)
  argv : Holds s.mem (s.esp + 8) (le32 (s.esp + 12))
  pointers : Holds s.mem (s.esp + 12) ((pointers top args).flatMap le32)
  strings : ∀ i (hi : i < args.length), Holds s.mem (slot top args i) (args[i] ++ [0])
  frame : ∀ a, a < s.esp + 4 ∨ top ≤ a → s.mem a = m a
  writes : ∀ w ∈ s.writes, s.esp + 4 ≤ w.1 ∧ w.1 + w.2 ≤ top
  lowest : (s.esp + 4, 4) ∈ s.writes

lemma Pushed.finish {s₂ s₃ s₄ : UserStack} (h : Pushed m top args p) (s₁ : UserStack)
    (hroom : stackSpace top args ≤ top)
    (hmem : s₁.mem = p.stack.mem) (hesp₁ : s₁.esp = p.stack.esp - p.stack.esp % 4)
    (hwrites : s₁.writes = p.stack.writes)
    (g₂ : Grew s₁ ((CourseArchive.PintOS.pointers top args).flatMap le32) s₂) (g₃ : Grew s₂ (le32 s₂.esp) s₃)
    (g₄ : Grew s₃ (le32 args.length) s₄) : Finished m top args { s₄ with esp := s₄.esp - 4 } := by
  rw [stackSpace] at hroom
  have hesp := h.esp
  have he₂ := g₂.esp
  have he₃ := g₃.esp
  have he₄ := g₄.esp
  rw [length_flatMap_le32, length_pointers] at he₂
  rw [length_le32] at he₃ he₄
  have hargc : s₄.esp - 4 + 4 = s₄.esp := by omega
  have hargv : s₄.esp - 4 + 8 = s₃.esp := by omega
  have hpointers : s₄.esp - 4 + 12 = s₂.esp := by omega
  refine ⟨?_, ?_, ?_, ?_, fun i hi => ?_, fun a ha => ?_, fun r hr => ?_, ?_⟩
  · simp only [stackSpace]
    omega
  · simp only [hargc]
    exact g₄.new
  · simp only [hargv, hpointers]
    exact g₄.above g₃.new le_rfl
  · simp only [hpointers]
    exact g₄.above (g₃.above g₂.new le_rfl) (by omega)
  · have hslot := le_slot top args i
    exact g₄.above (g₃.above (g₂.above (hmem ▸ h.strings i hi) (by omega)) (by omega)) (by omega)
  · simp only at ha
    simp only
    rw [g₄.frame (by omega), g₃.frame (by omega), g₂.frame (by omega), hmem]
    exact h.frame a (by omega)
  · simp only at hr
    simp only
    rcases g₄.writes hr with hr | rfl
    · rcases g₃.writes hr with hr | rfl
      · rcases g₂.writes hr with hr | rfl
        · have := h.writes r (hwrites ▸ hr)
          omega
        · rw [length_flatMap_le32, length_pointers]
          omega
      · rw [length_le32]
        omega
    · rw [length_le32]
      omega
  · simp only [hargc]
    exact length_le32 args.length ▸ g₄.last

lemma two_mul_length_le_total (hargs : ∀ w ∈ args, w ≠ []) : 2 * args.length ≤ total args := by
  induction args with
  | nil => exact Nat.zero_le _
  | cons w args ih =>
    have hw := List.length_pos_of_ne_nil (hargs w List.mem_cons_self)
    have hrest := ih fun v hv => hargs v (List.mem_cons_of_mem _ hv)
    rw [← List.singleton_append, total_append, total_singleton, List.length_append, List.length_singleton]
    omega

lemma ne_nil_of_mem_pieces {d : UInt8} {s w : List UInt8} (h : w ∈ pieces d s) : w ≠ [] := by
  simpa using (List.mem_filter.mp h).2

theorem pushArguments_finished (m : Memory) {top : ℕ} {command : List UInt8} (h0 : 0 ∉ command)
    (htop : top ≤ physBase) (hroom : stackSpace top (pieces 32 command) ≤ top) :
    ∃ s, pushArguments m top command = some s ∧ Finished m top (pieces 32 command) s := by
  have hspace : total (pieces 32 command) + (top - total (pieces 32 command)) % 4 +
      4 * ((pieces 32 command).length + 1) + 12 ≤ top := hroom
  have hbase : physBase < 2 ^ 32 := by decide
  have hlength := two_mul_length_le_total fun w (hw : w ∈ pieces 32 command) => ne_nil_of_mem_pieces hw
  have hcount : (pieces 32 command).length < 2 ^ 29 := by
    rw [physBase] at htop
    omega
  have hcopy : (command ++ [0]).drop 0 = command ++ [0] := rfl
  obtain ⟨p, hp, hpushed⟩ :=
    (Pushed.start m top).pushTokens hcopy h0 (by rw [List.nil_append]; omega) (by omega) hcount
    (Nat.lt_succ_self command.length)
  rw [List.nil_append] at hpushed
  obtain ⟨argv, hset, hread⟩ := hpushed.readArgv
  have hesp := hpushed.esp
  have halign :
    lower p.stack.esp (p.stack.esp % 4) = p.stack.esp - p.stack.esp % 4 := lower_eq (by omega) (by omega)
  let s₁ : UserStack := { p.stack with esp := p.stack.esp - p.stack.esp % 4 }
  obtain ⟨s₂, hs₂, g₂⟩ := s₁.push_grew ((pointers top (pieces 32 command)).flatMap le32)
    (by rw [length_flatMap_le32, length_pointers]; simp only [s₁]; omega) (by simp only [s₁]; omega)
  have he₂ := g₂.esp
  rw [length_flatMap_le32, length_pointers] at he₂
  simp only [s₁] at he₂
  obtain ⟨s₃, hs₃, g₃⟩ := s₂.push_grew (le32 s₂.esp) (by rw [length_le32]; omega) (by omega)
  have he₃ := g₃.esp
  rw [length_le32] at he₃
  obtain ⟨s₄, hs₄, g₄⟩ := s₃.push_grew (le32 p.argc) (by rw [length_le32]; omega) (by omega)
  have he₄ := g₄.esp
  rw [length_le32] at he₄
  rw [hpushed.argc] at g₄
  refine ⟨_, ?_, hpushed.finish s₁ hroom rfl rfl rfl g₂ g₃ g₄⟩
  rw [pushArguments, hp]
  have hs₂ : UserStack.push ⟨p.stack.mem, p.stack.esp - p.stack.esp % 4, p.stack.writes⟩ _ = s₂ := hs₂
  simp only [Option.bind_eq_bind, Option.bind_some, hset, hread, halign, hs₂, hs₃, hs₄,
    lower_eq (show 4 ≤ s₄.esp by omega) (by omega)]
  rfl

lemma holds_flatMap {a : ℕ} {xs : List ℕ} (h : Holds m a (xs.flatMap le32)) {j : ℕ} (hj : j < xs.length) :
    Holds m (a + 4 * j) (le32 xs[j]) := by
  induction xs generalizing a j with
  | nil => exact absurd hj (Nat.not_lt_zero j)
  | cons x xs ih =>
    obtain ⟨hx, hxs⟩ := Holds.append_iff.mp h
    rw [length_le32] at hxs
    cases j with
    | zero => exact hx
    | succ j =>
      have hj' : j < xs.length := by simpa using hj
      rw [show a + 4 * (j + 1) = a + 4 + 4 * j by omega]
      exact ih hxs hj'

lemma slot_add {i : ℕ} (hi : i < args.length) (hroom : total args ≤ top) :
    slot top args i + (args[i].length + 1) = top - total (args.take i) := by
  have htake : total (args.take (i + 1)) = total (args.take i) + (args[i].length + 1) := by
    rw [List.take_succ_eq_append_getElem hi, total_append, total_singleton]
  have := total_take_le args (i + 1)
  rw [slot]
  omega

lemma total_take_mono (args : List (List UInt8)) {i j : ℕ} (h : i ≤ j) :
    total (args.take i) ≤ total (args.take j) := by
  have := total_take_le (args.take j) i
  rwa [List.take_take, Nat.min_eq_left h] at this

variable {s : UserStack}

lemma Finished.room (h : Finished m top args s) (hroom : stackSpace top args ≤ top) :
    s.esp + 12 + 4 * (args.length + 1) ≤ top - total args ∧ total args ≤ top ∧ s.esp % 4 = 0 := by
  have hesp := h.esp
  rw [stackSpace] at hesp hroom
  omega

lemma Finished.argvValue (h : Finished m top args s) (hroom : stackSpace top args ≤ top) (htop : top < 2 ^ 32) :
    s.mem.load (s.esp + 8) 4 = s.esp + 12 := by
  have := h.room hroom
  exact load_of_holds h.argv (by omega)

lemma Finished.pointerValue (h : Finished m top args s) (htop : top < 2 ^ 32) {i : ℕ} (hi : i < args.length) :
    s.mem.load (s.esp + 12 + 4 * i) 4 = slot top args i := by
  have hholds := holds_flatMap h.pointers (j := i) (by rw [length_pointers]; omega)
  have hvalue : (CourseArchive.PintOS.pointers top args)[i]? = some (slot top args i) := by
    simp [CourseArchive.PintOS.pointers, List.getElem?_append_left, hi]
  rw [(List.getElem?_eq_some_iff.mp hvalue).2] at hholds
  refine load_of_holds hholds ?_
  rw [slot]
  omega

lemma Finished.nullValue (h : Finished m top args s) : s.mem.load (s.esp + 12 + 4 * args.length) 4 = 0 := by
  have hholds := holds_flatMap h.pointers (j := args.length) (by rw [length_pointers]; omega)
  have hvalue : (CourseArchive.PintOS.pointers top args)[args.length]? = some 0 := by
    simp [CourseArchive.PintOS.pointers]
  rw [(List.getElem?_eq_some_iff.mp hvalue).2] at hholds
  exact load_of_holds hholds (by decide)

lemma Finished.regions_eq (h : Finished m top args s) (hroom : stackSpace top args ≤ top) (htop : top < 2 ^ 32) :
    regions s.mem s.esp args = [(s.esp, 4), (s.esp + 4, 4), (s.esp + 8, 4), (s.esp + 12, 4 * (args.length + 1))] ++
      args.mapIdx fun i w => (slot top args i, w.length + 1) := by
  rw [regions, h.argvValue hroom htop]
  congr 1
  refine List.ext_getElem (by simp) fun i hi hi' => ?_
  have hi'' : i < args.length := by simpa using hi
  simp [h.pointerValue htop hi'']

lemma slots_apart (hroom : total args ≤ top) :
    (args.mapIdx fun i w => (slot top args i, w.length + 1)).Pairwise fun r s =>
      r.1 + r.2 ≤ s.1 ∨ s.1 + s.2 ≤ r.1 := by
  rw [List.pairwise_iff_getElem]
  intro i j hi hj hij
  simp only [List.getElem_mapIdx, List.length_mapIdx] at hi hj ⊢
  -- the later argument lies below the earlier one
  right
  have := total_take_mono args (show i + 1 ≤ j by omega)
  rw [slot_add hj hroom, slot]
  omega

theorem pushArguments_layout (m : Memory) (top : ℕ) (command : List UInt8) (h0 : 0 ∉ command)
    (htop : top ≤ physBase) (hroom : stackSpace top (pieces 32 command) ≤ top) :
    ∃ s, pushArguments m top command = some s ∧ Layout s.mem s.esp top (pieces 32 command) ∧
      ∀ a, a < s.esp ∨ top ≤ a → s.mem a = m a := by
  have hbase : physBase < 2 ^ 32 := by decide
  have htop' : top < 2 ^ 32 := by omega
  obtain ⟨s, hs, h⟩ := pushArguments_finished m h0 htop hroom
  obtain ⟨hesp, htotal, haligned⟩ := h.room hroom
  have hargv := h.argvValue hroom htop'
  refine ⟨s, hs, ⟨haligned, load_of_holds h.argc (by omega), ?_, fun i hi => ?_, fun r hr => ?_, ?_⟩,
    fun a ha => h.frame a (by omega)⟩
  · rw [hargv, h.nullValue]
  · rw [hargv, h.pointerValue htop' hi]
    exact h.strings i hi
  · rw [h.regions_eq hroom htop'] at hr
    rcases List.mem_append.mp hr with hr | hr
    · simp only [List.mem_cons, List.not_mem_nil, or_false] at hr
      rcases hr with rfl | rfl | rfl | rfl
      all_goals simp only
      all_goals omega
    · obtain ⟨i, hi, rfl⟩ := List.mem_mapIdx.mp hr
      have hle := le_slot top (pieces 32 command) i
      simp only [slot_add hi htotal]
      omega
  · rw [h.regions_eq hroom htop', List.pairwise_append]
    refine ⟨?_, slots_apart htotal, fun r hr r' hr' => ?_⟩
    · simp
    · obtain ⟨i, hi, rfl⟩ := List.mem_mapIdx.mp hr'
      have hle := le_slot top (pieces 32 command) i
      left
      simp only [List.mem_cons, List.not_mem_nil, or_false] at hr
      rcases hr with rfl | rfl | rfl | rfl
      all_goals simp only
      all_goals omega

theorem pushArguments_layout_two : ∃ s, pushArguments (fun _ => 0) physBase [97, 32, 32, 98, 99] = some s ∧
    Layout s.mem s.esp physBase [[97], [98, 99]] := by
  have hpieces : pieces 32 [97, 32, 32, 98, 99] = [[97], [98, 99]] := by decide
  obtain ⟨s, hs, hlayout, -⟩ := pushArguments_layout (fun _ => 0) physBase [97, 32, 32, 98, 99] (by decide) le_rfl
    (by rw [hpieces]; decide)
  rw [hpieces] at hlayout
  exact ⟨s, hs, hlayout⟩

/-! The one page that `setup_stack` maps. -/

def commandCopy (c : List UInt8) : List UInt8 := c.take (pgSize - 1)

end CourseArchive.PintOS
