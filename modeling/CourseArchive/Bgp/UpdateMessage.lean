import CourseArchive.Bgp.Machine

/-! The bytes of an UPDATE message, as `advertise` writes them and as `handle_bgp_update` reads them. -/

namespace CourseArchive.Bgp

open Lib

def hopBytes (p : HopByHopPath) : List UInt8 := be16 (UInt16.ofNat p.ases.length) ++ p.ases.flatMap be16

def destinationBytes (p : HopByHopPath) : List UInt8 := be32 p.destination.ip ++ [p.destination.mask]

def attributeLength (routes : List HopByHopPath) : ℕ := (routes.map fun p => 2 + p.ases.length * 2).sum

def updateLength (routes : List HopByHopPath) : ℕ := headerLength + 4 + attributeLength routes + 5 * routes.length

def updateBytes (routes : List HopByHopPath) : List UInt8 :=
  be16 0 ++ be16 (UInt16.ofNat routes.length) ++ routes.flatMap hopBytes ++ routes.flatMap destinationBytes

lemma length_flatMap_be16 (xs : List UInt16) : (xs.flatMap be16).length = xs.length * 2 := by
  simp [List.length_flatMap]

lemma length_hopBytes (p : HopByHopPath) : (hopBytes p).length = 2 + p.ases.length * 2 := by
  simp [hopBytes]

lemma length_destinationBytes (p : HopByHopPath) : (destinationBytes p).length = 5 := rfl

@[simp] lemma attributeLength_nil : attributeLength [] = 0 := rfl

@[simp] lemma attributeLength_cons (p : HopByHopPath) (routes : List HopByHopPath) :
    attributeLength (p :: routes) = 2 + p.ases.length * 2 + attributeLength routes := rfl

lemma length_flatMap_hopBytes (routes : List HopByHopPath) :
    (routes.flatMap hopBytes).length = attributeLength routes := by
  simp [List.length_flatMap, length_hopBytes, attributeLength]

lemma length_flatMap_destinationBytes (routes : List HopByHopPath) :
    (routes.flatMap destinationBytes).length = 5 * routes.length := by
  simp [List.length_flatMap, length_destinationBytes, Nat.mul_comm]

lemma length_updateBytes (routes : List HopByHopPath) :
    headerLength + (updateBytes routes).length = updateLength routes := by
  simp only [updateBytes, updateLength, List.length_append, length_be16, length_flatMap_hopBytes,
    length_flatMap_destinationBytes]
  omega

namespace SimulatedMachine

lemma toInt_of_lt {x : ℤ} (h₀ : 0 ≤ x) (h : x < 2 ^ 31) : toInt x = x := by
  rw [toInt, Int.bmod_eq_of_le_mul_two] <;> omega

lemma toInt_add (x y : ℤ) : toInt (toInt x + y) = toInt (x + y) := Int.bmod_add_bmod

lemma intSum_of_lt {x : ℤ} (h₀ : 0 ≤ x) (h : x < 2 ^ 31) : intSum x = some x := by
  rw [intSum, if_pos ⟨by omega, by omega⟩]

lemma intSum_inv {x y : ℤ} (h : intSum x = some y) : y = x ∧ x < 2 ^ 31 := by
  rw [intSum] at h
  split at h
  · next hx =>
    cases h
    exact ⟨rfl, by omega⟩
  · cases h

lemma pal_eq (routes : List HopByHopPath) :
    routes.foldl (fun pal eachPath => toInt (pal + (2 + eachPath.ases.length * 2))) 0 =
      toInt (attributeLength routes) := by
  suffices h : ∀ a, routes.foldl (fun pal eachPath => toInt (pal + (2 + eachPath.ases.length * 2))) (toInt a) =
      toInt (a + attributeLength routes) by
    have h₀ : toInt 0 = 0 := rfl
    simpa only [h₀, zero_add] using h 0
  induction routes with
  | nil => simp
  | cons p routes ih =>
    intro a
    rw [List.foldl_cons, toInt_add, ih]
    congr 1
    push_cast [attributeLength_cons]
    ring

/-! Writing. -/

private lemma bind_some {α β : Type} {x : Option α} {a : α} (h : x = some a) (f : α → Option β) :
    (x >>= f) = f a := by
  rw [h]
  rfl

variable {b b' : Buffer} {n N : ℕ} {bs : List UInt8} {p : HopByHopPath} {routes : List HopByHopPath} {offset : ℤ}

private lemma writeHops_filled (base : ℤ) (h : Filled b N bs) (hb : base + 2 = bs.length) (k : ℕ)
    (hk : k ≤ p.ases.length) (hN : bs.length + k * 2 ≤ N) :
    ∃ b', (List.range k).foldlM (fun (data : Buffer) (j : ℕ) =>
        data.memcpy (base + (j + 1) * 2) (be16 (p.ases.getD j 0))) b = some b' ∧
      Filled b' N (bs ++ (p.ases.take k).flatMap be16) := by
  induction k with
  | zero => exact ⟨b, rfl, by simpa using h⟩
  | succ k ih =>
    obtain ⟨b₁, e₁, h₁⟩ := ih (by omega) (by omega)
    have hlen : (bs ++ (p.ases.take k).flatMap be16).length = bs.length + k * 2 := by
      rw [List.length_append, length_flatMap_be16, List.length_take, Nat.min_eq_left (by omega)]
    obtain ⟨b₂, e₂, h₂⟩ := h₁.memcpy (base + (k + 1) * 2) (be16 (p.ases.getD k 0))
      (by rw [hlen]; push_cast; omega) (by rw [hlen, length_be16]; omega)
    refine ⟨b₂, ?_, ?_⟩
    · rw [List.range_succ, List.foldlM_append, e₁]
      simpa using e₂
    · have ht : p.ases.take (k + 1) = p.ases.take k ++ [p.ases.getD k 0] := by
        rw [List.take_add_one, List.getElem?_eq_getElem (by omega)]
        simp [List.getD, List.getElem?_eq_getElem (show k < p.ases.length by omega)]
      rw [ht, List.flatMap_append, ← List.append_assoc]
      simpa using h₂

lemma writePath_filled (h : Filled b N bs) (hb : headerLength + 4 + offset = bs.length) (h₀ : 0 ≤ offset)
    (hp : p.ases.length < 2 ^ 16) (hN : bs.length + (2 + p.ases.length * 2) ≤ N) (hlt : N < 2 ^ 31) :
    ∃ b', writePath b offset p = some (b', offset + (2 + p.ases.length * 2)) ∧ Filled b' N (bs ++ hopBytes p) := by
  have hcount : (UInt16.ofNat p.ases.length).toNat = p.ases.length := by
    rw [UInt16.toNat_ofNat']
    omega
  obtain ⟨b₁, e₁, h₁⟩ := h.memcpy _ (be16 (UInt16.ofNat p.ases.length)) hb (by rw [length_be16]; omega)
  obtain ⟨b₂, e₂, h₂⟩ := writeHops_filled (headerLength + 4 + offset) h₁
    (by rw [List.length_append, length_be16]; push_cast; omega) p.ases.length le_rfl
    (by rw [List.length_append, length_be16]; omega)
  refine ⟨b₂, ?_, by simpa [hopBytes] using h₂⟩
  simp only [writePath, hcount, e₁, e₂, Option.bind_eq_bind, Option.bind_some, Option.pure_def, Option.some.injEq,
    Prod.mk.injEq, true_and]
  rw [toInt_of_lt (by omega) (by simp only [headerLength] at hb; omega)]
  ring

lemma writePaths_filled (offset : ℤ) (h : Filled b N bs) (hb : headerLength + 4 + offset = bs.length)
    (h₀ : 0 ≤ offset)
    (hp : ∀ p ∈ routes, p.ases.length < 2 ^ 16) (hN : bs.length + attributeLength routes ≤ N) (hlt : N < 2 ^ 31) :
    ∃ b', routes.foldlM (fun (acc : Buffer × ℤ) item => writePath acc.1 acc.2 item) (b, offset) =
        some (b', offset + attributeLength routes) ∧ Filled b' N (bs ++ routes.flatMap hopBytes) := by
  induction routes generalizing b offset bs with
  | nil => exact ⟨b, by simp, by simpa using h⟩
  | cons p routes ih =>
    rw [attributeLength_cons] at hN
    obtain ⟨b₁, e₁, h₁⟩ := writePath_filled h hb h₀ (hp p List.mem_cons_self) (by omega) hlt
    have hb₁ : (headerLength : ℤ) + 4 + (offset + (2 + p.ases.length * 2)) = (bs ++ hopBytes p).length := by
      rw [List.length_append, length_hopBytes]
      push_cast
      omega
    obtain ⟨b₂, e₂, h₂⟩ := ih _ h₁ hb₁ (by omega)
      (fun q hq => hp q (List.mem_cons_of_mem _ hq)) (by rw [List.length_append, length_hopBytes]; omega)
    refine ⟨b₂, ?_, by simpa using h₂⟩
    rw [List.foldlM_cons, e₁]
    simp only [Option.bind_eq_bind, Option.bind_some, e₂, attributeLength_cons]
    push_cast
    rw [add_assoc]

lemma writeDestination_filled {pal : ℤ} (h : Filled b N bs) (k : ℕ)
    (hb : headerLength + 4 + pal + k * 5 = bs.length) (hN : bs.length + 5 ≤ N) :
    ∃ b', writeDestination pal b (p, k) = some b' ∧ Filled b' N (bs ++ destinationBytes p) := by
  obtain ⟨b₁, e₁, h₁⟩ := h.memcpy _ (be32 p.destination.ip) hb (by rw [length_be32]; omega)
  obtain ⟨b₂, e₂, h₂⟩ := h₁.memcpy (headerLength + pal + k * 5 + 8) [p.destination.mask]
    (by rw [List.length_append, length_be32]; push_cast; omega)
    (by rw [List.length_append, length_be32, List.length_singleton]; omega)
  refine ⟨b₂, ?_, by simpa [destinationBytes] using h₂⟩
  simp only [writeDestination, e₁, Option.bind_eq_bind, Option.bind_some, e₂]

lemma writeDestinations_filled (pal : ℤ) (routes : List HopByHopPath) (h : Filled b N bs) (k : ℕ)
    (hb : headerLength + 4 + pal + k * 5 = bs.length) (hN : bs.length + 5 * routes.length ≤ N) :
    ∃ b', (routes.zipIdx k).foldlM (writeDestination pal) b = some b' ∧
      Filled b' N (bs ++ routes.flatMap destinationBytes) := by
  induction routes generalizing b k bs with
  | nil => exact ⟨b, rfl, by simpa using h⟩
  | cons p routes ih =>
    rw [List.length_cons] at hN
    obtain ⟨b₁, e₁, h₁⟩ := writeDestination_filled (p := p) h k hb (by omega)
    have hl := length_destinationBytes p
    obtain ⟨b₂, e₂, h₂⟩ := ih h₁ (k + 1) (by rw [List.length_append, hl]; push_cast; omega)
      (by rw [List.length_append, hl]; omega)
    refine ⟨b₂, ?_, by simpa using h₂⟩
    rw [List.zipIdx_cons, List.foldlM_cons, e₁]
    exact e₂

def updateHeaders (m : SimulatedMachine n) (i : Fin n) (routes : List HopByHopPath) : List UInt8 :=
  makeEthernethdr ++
    makeIphdr (m.ifaceIp i) (m.ifsmArray i).neighborIp (UInt16.ofInt (20 + 19 + (updateBytes routes).length)) ++
    makeBgphdr (UInt16.ofInt (19 + (updateBytes routes).length)) 2

lemma length_makeEthernethdr : makeEthernethdr.length = 14 := by
  simp only [makeEthernethdr, List.length_append, List.length_replicate, List.length_cons, List.length_nil]

lemma length_makeIphdr (src dst : UInt32) (len : UInt16) : (makeIphdr src dst len).length = 20 := by
  simp only [makeIphdr, List.length_append, length_be16, length_be32, List.length_cons, List.length_nil]

lemma length_makeBgphdr (len : UInt16) (type : UInt8) : (makeBgphdr len type).length = 19 := by
  simp only [makeBgphdr, List.length_append, length_be16, List.length_replicate, List.length_cons, List.length_nil]

lemma length_updateHeaders (m : SimulatedMachine n) (i : Fin n) (routes : List HopByHopPath) :
    (updateHeaders m i routes).length = headerLength := by
  simp only [updateHeaders, List.length_append, length_makeEthernethdr, length_makeIphdr, length_makeBgphdr,
    headerLength]

lemma updateMessage_filled (m : SimulatedMachine n) (i : Fin n) (memory : ℕ → UInt8)
    (hp : ∀ p ∈ routes, p.ases.length < 2 ^ 16) (hsize : updateLength routes < 2 ^ 31) :
    ∃ b, m.updateMessage i memory routes = some b ∧
      Filled b (updateLength routes) (updateHeaders m i routes ++ updateBytes routes) := by
  have hlen := length_updateBytes routes
  have hsum : updateLength routes = 53 + 4 + attributeLength routes + 5 * routes.length := by
    simp only [updateLength, headerLength]
  have hpal : toInt (attributeLength routes : ℤ) = attributeLength routes := toInt_of_lt (by omega) (by omega)
  have hnlri : toInt (routes.length * 5 : ℤ) = routes.length * 5 := toInt_of_lt (by omega) (by omega)
  have hdata : intSum (2 + 2 + (attributeLength routes : ℤ) + (routes.length * 5 : ℤ)) =
      some ((updateBytes routes).length : ℤ) := by
    rw [intSum_of_lt (by omega) (by omega)]
    simp only [headerLength] at hlen
    exact congrArg some (by omega)
  have hpacket : intSum (headerLength + ((updateBytes routes).length : ℤ)) = some (updateLength routes : ℤ) := by
    rw [intSum_of_lt (by omega) (by omega)]
    exact congrArg some (by omega)
  have hnew : newBuffer (updateLength routes : ℤ) memory = some ⟨updateLength routes, memory⟩ := by
    rw [newBuffer, if_pos (by omega), Int.toNat_natCast]
  have h₀ : Filled ⟨updateLength routes, memory⟩ (updateLength routes) [] := ⟨rfl, .nil⟩
  obtain ⟨b₁, e₁, h₁⟩ := h₀.memcpy (0) makeEthernethdr (by simp)
    (by rw [length_makeEthernethdr, List.length_nil]; omega)
  obtain ⟨b₂, e₂, h₂⟩ := h₁.memcpy (14) (makeIphdr (m.ifaceIp i) (m.ifsmArray i).neighborIp
    (UInt16.ofInt (20 + 19 + (updateBytes routes).length))) (by simp [length_makeEthernethdr]) (by
      simp only [List.length_append, length_makeIphdr, length_makeEthernethdr, List.length_nil]
      omega)
  obtain ⟨b₃, e₃, h₃⟩ := h₂.memcpy (14 + 20) (makeBgphdr (UInt16.ofInt (19 + (updateBytes routes).length)) 2)
    (by simp [length_makeEthernethdr, length_makeIphdr]) (by
      simp only [List.length_append, length_makeIphdr, length_makeEthernethdr, length_makeBgphdr, List.length_nil]
      omega)
  rw [List.nil_append, ← updateHeaders] at h₃
  obtain ⟨b₄, e₄, h₄⟩ := h₃.memcpy (headerLength) (be16 0) (by rw [length_updateHeaders]) (by
    rw [length_updateHeaders, length_be16, headerLength]
    omega)
  obtain ⟨b₅, e₅, h₅⟩ := h₄.memcpy (headerLength + 2) (be16 (UInt16.ofNat routes.length))
    (by rw [List.length_append, length_updateHeaders, length_be16]; push_cast; rfl) (by
    rw [List.length_append, length_updateHeaders, length_be16, length_be16, headerLength]
    omega)
  obtain ⟨b₆, e₆, h₆⟩ := writePaths_filled 0 h₅
    (by simp only [List.length_append, length_updateHeaders, length_be16]; push_cast; ring) le_rfl hp
    (by simp only [List.length_append, length_updateHeaders, length_be16, headerLength]; omega) hsize
  obtain ⟨b₇, e₇, h₇⟩ := writeDestinations_filled (attributeLength routes) routes h₆ 0
    (by
      simp only [List.length_append, length_updateHeaders, length_be16, length_flatMap_hopBytes]
      push_cast
      ring)
    (by
      simp only [List.length_append, length_updateHeaders, length_be16, length_flatMap_hopBytes, headerLength]
      omega)
  refine ⟨b₇, ?_, by simpa only [updateBytes, List.append_assoc] using h₇⟩
  rw [updateMessage, pal_eq, hpal, hnlri, bind_some hdata, bind_some hpacket, bind_some hnew, bind_some e₁,
    bind_some e₂, bind_some e₃, bind_some e₄, bind_some e₅, bind_some e₆]
  exact e₇

/-! What a frame that could be built says about its length. -/

private lemma bind_inv {α β : Type} {x : Option α} {f : α → Option β} {y : β} (h : (x >>= f) = some y) :
    ∃ a, x = some a ∧ f a = some y := Option.bind_eq_some_iff.mp h

private lemma writeHops_inv {base : ℤ} (k : ℕ) (h : (List.range k).foldlM (fun (data : Buffer) (j : ℕ) =>
    data.memcpy (base + (j + 1) * 2) (be16 (p.ases.getD j 0))) b = some b') :
    b'.length = b.length ∧ (0 < k → base + k * 2 + 2 ≤ b.length) := by
  induction k generalizing b' with
  | zero =>
    cases h
    exact ⟨rfl, by omega⟩
  | succ k ih =>
    rw [List.range_succ, List.foldlM_append] at h
    obtain ⟨b₁, h₁, h₂⟩ := bind_inv h
    obtain ⟨b₂, h₂, h₃⟩ := bind_inv h₂
    cases h₃
    obtain ⟨-, hin, hlen⟩ := Buffer.memcpy_inv h₂
    rw [length_be16] at hin
    have hih := (ih h₁).1
    exact ⟨hlen.trans hih, fun _ => by push_cast at hin ⊢; omega⟩

lemma writePath_inv {o : ℤ} (hp : p.ases.length < 2 ^ 16) (h : writePath b offset p = some (b', o)) :
    b'.length = b.length ∧ headerLength + 4 + offset + (2 + p.ases.length * 2) ≤ b.length ∧
      o = toInt (offset + p.ases.length * 2 + 2) := by
  have hcount : (UInt16.ofNat p.ases.length).toNat = p.ases.length := by
    rw [UInt16.toNat_ofNat']
    omega
  obtain ⟨b₁, h₁, h⟩ := bind_inv h
  obtain ⟨b₂, h₂, h⟩ := bind_inv h
  cases h
  obtain ⟨-, hin, hlen₁⟩ := Buffer.memcpy_inv h₁
  rw [hcount] at h₂
  obtain ⟨hlen₂, hhops⟩ := writeHops_inv p.ases.length h₂
  rw [length_be16] at hin
  refine ⟨hlen₂.trans hlen₁, ?_, rfl⟩
  rcases Nat.eq_zero_or_pos p.ases.length with h₀ | h₀
  · rw [h₀]
    push_cast
    omega
  · have := hhops h₀
    omega

lemma writePaths_inv {o : ℤ} {T : ℕ} (hp : ∀ p ∈ routes, p.ases.length < 2 ^ 16) (hlt : b.length < 2 ^ 31)
    (hT : headerLength + 4 + T ≤ b.length)
    (h : routes.foldlM (fun (acc : Buffer × ℤ) item => writePath acc.1 acc.2 item) (b, (T : ℤ)) = some (b', o)) :
    b'.length = b.length ∧ headerLength + 4 + (T + attributeLength routes) ≤ b.length := by
  induction routes generalizing b T with
  | nil =>
    cases h
    exact ⟨rfl, hT⟩
  | cons p routes ih =>
    rw [List.foldlM_cons] at h
    obtain ⟨⟨b₁, o₁⟩, h₁, h⟩ := bind_inv h
    dsimp only at h₁
    obtain ⟨hlen, hin, ho₁⟩ := writePath_inv (hp p List.mem_cons_self) h₁
    have ho : toInt ((T : ℤ) + p.ases.length * 2 + 2) = ((T + (2 + p.ases.length * 2) : ℕ) : ℤ) := by
      rw [toInt_of_lt (by omega) (by omega)]
      push_cast
      ring
    rw [ho₁, ho] at h
    obtain ⟨hlen', hin'⟩ := ih (T := T + (2 + p.ases.length * 2)) (fun q hq => hp q (List.mem_cons_of_mem _ hq))
      (by omega) (by omega) h
    rw [attributeLength_cons]
    exact ⟨by omega, by omega⟩

lemma writeDestinations_inv {pal : ℤ} {k : ℕ} (hk : headerLength + 4 + pal + k * 5 ≤ b.length)
    (h : (routes.zipIdx k).foldlM (writeDestination pal) b = some b') :
    headerLength + 4 + pal + (k + routes.length) * 5 ≤ b.length := by
  induction routes generalizing b k with
  | nil => simpa using hk
  | cons p routes ih =>
    rw [List.zipIdx_cons, List.foldlM_cons] at h
    obtain ⟨b₁, h₁, h⟩ := bind_inv h
    obtain ⟨b₂, h₂, h₁⟩ := bind_inv h₁
    obtain ⟨-, -, hlen₂⟩ := Buffer.memcpy_inv h₂
    obtain ⟨-, hin, hlen₁⟩ := Buffer.memcpy_inv h₁
    rw [List.length_singleton] at hin
    have := ih (k := k + 1) (by push_cast; omega) h
    rw [List.length_cons]
    push_cast at this ⊢
    omega

lemma updateLength_lt_of_updateMessage {m : SimulatedMachine n} {i : Fin n} {memory : ℕ → UInt8}
    (hp : ∀ p ∈ routes, p.ases.length < 2 ^ 16) (h : m.updateMessage i memory routes = some b) :
    updateLength routes < 2 ^ 31 := by
  rw [updateMessage, pal_eq] at h
  obtain ⟨dataLength, -, h⟩ := bind_inv h
  obtain ⟨packetLength, hpacket, h⟩ := bind_inv h
  obtain ⟨b₀, h₀, h⟩ := bind_inv h
  obtain ⟨b₁, h₁, h⟩ := bind_inv h
  obtain ⟨b₂, h₂, h⟩ := bind_inv h
  obtain ⟨b₃, h₃, h⟩ := bind_inv h
  obtain ⟨b₄, h₄, h⟩ := bind_inv h
  obtain ⟨b₅, h₅, h⟩ := bind_inv h
  obtain ⟨⟨b₆, o⟩, h₆, h₇⟩ := bind_inv h
  -- the buffer is shorter than 2 ^ 31 bytes and every copy kept its length
  have hlen₀ : b₀.length < 2 ^ 31 := by
    have := (intSum_inv hpacket)
    rw [newBuffer] at h₀
    split at h₀
    · cases h₀
      dsimp only
      omega
    · cases h₀
  obtain ⟨-, -, e₁⟩ := Buffer.memcpy_inv h₁
  obtain ⟨-, -, e₂⟩ := Buffer.memcpy_inv h₂
  obtain ⟨-, -, e₃⟩ := Buffer.memcpy_inv h₃
  obtain ⟨-, -, e₄⟩ := Buffer.memcpy_inv h₄
  obtain ⟨-, hin, e₅⟩ := Buffer.memcpy_inv h₅
  rw [length_be16] at hin
  obtain ⟨e₆, hpaths⟩ := writePaths_inv (T := 0) hp (by omega) (by omega) h₆
  have hpal : toInt (attributeLength routes : ℤ) = attributeLength routes := toInt_of_lt (by omega) (by omega)
  rw [hpal] at h₇
  have hdest := writeDestinations_inv (k := 0) (by push_cast; omega) h₇
  rw [updateLength]
  push_cast at hdest
  omega

end SimulatedMachine

end CourseArchive.Bgp
