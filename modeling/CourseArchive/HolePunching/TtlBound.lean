import CourseArchive.HolePunching.Forwarding
import CourseArchive.Lib.Runs

/-! The TTL of a forwarded frame, and how often a frame is forwarded in a network of the machines. -/

namespace CourseArchive.HolePunching

open Lib

inductive Machine (n : ℕ)
  | nat (m : NatMachine n)
  | server (m : ServerMachine n)
  | client (m : ClientMachine n)

inductive Command (n : ℕ)
  | nat (move : NatMachine.Move n)
  | client (move : ClientMachine.Move n)

namespace Machine

variable {n : ℕ}

def processFrame (m : Machine n) (frame : Buffer) (ifaceIndex : Fin (n + 1)) : Machine n × List (Sent n) :=
  match m with
  | nat m => Prod.map nat id (m.processFrame frame ifaceIndex)
  | server m => Prod.map server Reply.frames (m.processFrame frame ifaceIndex)
  | client m => Prod.map client Reply.frames (m.processFrame frame ifaceIndex)

def forwards (m : Machine n) (frame : Buffer) (ifaceIndex : Fin (n + 1)) : Option (Sent n) :=
  match m with
  | nat m => m.forwards frame ifaceIndex
  | server m => m.forwards frame
  | client m => m.forwards frame

def PassesOn (m : Machine n) (frame : Buffer) (ifaceIndex : Fin (n + 1)) : Prop :=
  match m with
  | nat m =>
    if ifaceIndex = 0 then
      (m.findInOuterTable (destination frame.data)).isSome ∧
        (m.findInSession (destination frame.data) (source frame.data)).isSome
    else m.validInRange (srcPort frame.data)
  | server _ => protocol frame.data = 17 ∧ getChecksum (ipHeader frame.data) = 0 ∧ dstIp frame.data ≠ serverIp
  | client m => 0 < ttl frame.data ∧ protocol frame.data = 17 ∧ getChecksum (ipHeader frame.data) = 0 ∧
      dstIp frame.data ≠ (m.iface 0).ip

instance (m : Machine n) (frame : Buffer) (ifaceIndex : Fin (n + 1)) : Decidable (m.PassesOn frame ifaceIndex) :=
  match m with
  | nat m => inferInstanceAs (Decidable (if ifaceIndex = 0 then
      (m.findInOuterTable (destination frame.data)).isSome ∧
        (m.findInSession (destination frame.data) (source frame.data)).isSome
    else m.validInRange (srcPort frame.data)))
  | server _ => inferInstanceAs (Decidable (_ ∧ _ ∧ _ ≠ _))
  | client _ => inferInstanceAs (Decidable (_ ∧ _ ∧ _ ∧ _ ≠ _))

lemma answers (m : Machine n) (frame : Buffer) (ifaceIndex : Fin (n + 1)) :
    Answers frame (m.processFrame frame ifaceIndex).2 (m.forwards frame ifaceIndex) := by
  cases m with
  | nat m => exact m.answers frame ifaceIndex
  | server m => exact m.answers frame ifaceIndex
  | client m => exact m.answers frame ifaceIndex

lemma forwards_isSome_iff (m : Machine n) (frame : Buffer) (ifaceIndex : Fin (n + 1)) :
    (m.forwards frame ifaceIndex).isSome ↔ m.PassesOn frame ifaceIndex := by
  cases m with
  | nat m =>
    simp only [forwards, PassesOn, NatMachine.forwards]
    by_cases hin : ifaceIndex = 0
    · simp only [if_pos hin]
      cases m.findInOuterTable (destination frame.data) <;>
        cases m.findInSession (destination frame.data) (source frame.data) <;> simp
    · simp only [if_neg hin]
      cases m.validInRange (srcPort frame.data) <;> simp
  | server m =>
    simp only [forwards, PassesOn, ServerMachine.forwards]
    split <;> simp_all
  | client m =>
    simp only [forwards, PassesOn, ClientMachine.forwards]
    split <;> simp_all

def command (m : Machine n) (c : Command n) : Machine n × List (Sent n) :=
  match m, c with
  | nat m, .nat (.blockRange min max) => (nat (m.blockRange min max), [])
  | nat m, .nat (.reset basePort) => (nat (m.resetSetting basePort), [])
  | client m, .client (.received _ _) => (client m, [])
  | client m, .client move => Prod.map client Reply.frames (m.move move)
  | m, _ => (m, [])

end Machine

lemma CopyOf.ttl_eq {received sent : Buffer} (h : CopyOf received sent) :
    ttl sent.data = ttl received.data - 1 := by
  obtain ⟨data, hdata, rfl⟩ := h
  rw [← hdata]
  exact consumeTtl_ttl data

lemma ttl_sub_one_lt_iff (x : UInt8) : x - 1 < x ↔ x ≠ 0 := by
  rw [UInt8.lt_iff_toNat_lt, ne_eq, ← UInt8.toNat_inj, UInt8.toNat_sub]
  have hx := x.toNat_lt
  simp only [UInt8.reduceToNat]
  omega

/-! A network: any machines, with each interface linked to any others. -/

section Network

variable {ι : Type} {ports : ι → ℕ}

structure Port (ports : ι → ℕ) where
  owner : ι
  ifaceIndex : Fin (ports owner + 1)

structure Flying (ports : ι → ℕ) where
  frame : Buffer
  port : Port ports
  forwarded : ℕ

structure Network (ports : ι → ℕ) where
  machines : (i : ι) → Machine (ports i)
  flying : List (Flying ports)

abbrev Links (ports : ι → ℕ) := Port ports → List (Port ports)

inductive Event (ports : ι → ℕ)
  | arrives (k : ℕ)
  | lost (k : ℕ)
  | built (frame : Buffer) (port : Port ports)
  | command (i : ι) (c : Command (ports i))

namespace Network

variable {links : Links ports} {net net' : Network ports}

def launch (links : Links ports) (i : ι) (frames : List (Sent (ports i))) (forwarded : ℕ) : List (Flying ports) :=
  (frames.filter fun s => realSendFrame s.frame).flatMap fun s => (links ⟨i, s.ifaceIndex⟩).map fun port =>
  ⟨s.frame, port, forwarded⟩

lemma bounded_of_zero {f : Flying ports} (h : f.forwarded = 0) : f.forwarded + (ttl f.frame.data).toNat ≤ 255 := by
  have := (ttl f.frame.data).toNat_lt
  omega

lemma mem_launch {i : ι} {frames : List (Sent (ports i))} {forwarded : ℕ} {f : Flying ports}
    (h : f ∈ launch links i frames forwarded) : f.forwarded = forwarded ∧ ∃ s ∈ frames, f.frame = s.frame := by
  obtain ⟨s, hs, hf⟩ := List.mem_flatMap.mp h
  obtain ⟨port, -, rfl⟩ := List.mem_map.mp hf
  exact ⟨rfl, s, List.mem_of_mem_filter hs, rfl⟩

variable [DecidableEq ι]

def arrive (links : Links ports) (net : Network ports) (k : ℕ) (f : Flying ports) : Network ports :=
  let m := net.machines f.port.owner
  let (m', sent) := m.processFrame f.frame f.port.ifaceIndex
  let forwarded := if m.PassesOn f.frame f.port.ifaceIndex then f.forwarded + 1 else 0
  ⟨Function.update net.machines f.port.owner m', net.flying.eraseIdx k ++ launch links f.port.owner sent forwarded⟩

/-- A frame that ends the loop of a machine is lost, and so is all that comes for the machine after it. -/
def step (links : Links ports) (net : Network ports) : Event ports → Option (Network ports)
  | .arrives k => (net.flying[k]?.filter fun f => fitsFrameBuffer f.frame).map (net.arrive links k)
  | .lost k => some { net with flying := net.flying.eraseIdx k }
  | .built frame port => some { net with flying := net.flying ++ [⟨frame, port, 0⟩] }
  | .command i c =>
    let (m', sent) := (net.machines i).command c
    some ⟨Function.update net.machines i m', net.flying ++ launch links i sent 0⟩

def AliveOnArrival (net : Network ports) : Event ports → Prop
  | .arrives k => ∀ f, net.flying[k]? = some f →
      ttl f.frame.data ≠ 0 ∨ ¬ (net.machines f.port.owner).PassesOn f.frame f.port.ifaceIndex
  | _ => True

/-- What a frame has been forwarded and what its TTL allows it add up to at most the largest TTL. -/
def Bounded (net : Network ports) : Prop := ∀ f ∈ net.flying, f.forwarded + (ttl f.frame.data).toNat ≤ 255

lemma arrive_bounded {k : ℕ} {f : Flying ports} (h : net.Bounded) (hf : net.flying[k]? = some f)
    (halive : ttl f.frame.data ≠ 0 ∨ ¬ (net.machines f.port.owner).PassesOn f.frame f.port.ifaceIndex) :
    (net.arrive links k f).Bounded := by
  intro g hg
  rcases List.mem_append.mp hg with hg | hg
  · exact h g (List.mem_of_mem_eraseIdx hg)
  obtain ⟨hforwarded, s, hs, hframe⟩ := mem_launch hg
  have hiff := (net.machines f.port.owner).forwards_isSome_iff f.frame f.port.ifaceIndex
  by_cases hpass : (net.machines f.port.owner).PassesOn f.frame f.port.ifaceIndex
  · -- the only frame sent is the copy, with one hop more and one TTL less
    rw [if_pos hpass] at hforwarded
    have hanswers := (net.machines f.port.owner).answers f.frame f.port.ifaceIndex
    obtain ⟨c, hc⟩ := Option.isSome_iff_exists.mp (hiff.mpr hpass)
    rw [hc] at hanswers
    have hcopy : CopyOf f.frame s.frame := hanswers.copyOf_of_mem hs
    have hlt := (ttl_sub_one_lt_iff _).mpr (halive.resolve_right (not_not_intro hpass))
    rw [← hcopy.ttl_eq, UInt8.lt_iff_toNat_lt] at hlt
    have hbound := h f (List.mem_of_getElem? hf)
    rw [hframe, hforwarded]
    omega
  · rw [if_neg hpass] at hforwarded
    exact bounded_of_zero hforwarded

lemma step_bounded {e : Event ports} (h : net.Bounded) (hok : net.AliveOnArrival e)
    (hstep : net.step links e = some net') :
    net'.Bounded := by
  cases e with
  | arrives k =>
    obtain ⟨f, hf, rfl⟩ := Option.map_eq_some_iff.mp hstep
    have hf := (Option.filter_eq_some_iff.mp hf).1
    exact arrive_bounded h hf (hok f hf)
  | lost k =>
    cases hstep
    exact fun f hf => h f (List.mem_of_mem_eraseIdx hf)
  | built frame port =>
    cases hstep
    intro f hf
    rcases List.mem_append.mp hf with hf | hf
    · exact h f hf
    · obtain rfl := List.mem_singleton.mp hf
      exact bounded_of_zero rfl
  | command i c =>
    cases hstep
    intro f hf
    rcases List.mem_append.mp hf with hf | hf
    · exact h f hf
    · exact bounded_of_zero (mem_launch hf).1

/-- A machine passes a frame on with a smaller TTL exactly if it does not pass on a frame whose TTL is zero. In a
run in which no machine does that, no frame is forwarded more than 255 times. -/
theorem forwarding_consumes_ttl (links : Links ports) (hstart : net.flying = [])
    (h : Reaches (step links) AliveOnArrival net net') :
    (∀ f ∈ net'.flying, f.forwarded + (ttl f.frame.data).toNat ≤ 255) ∧
      ∀ (n : ℕ) (m : Machine n) (frame : Buffer) (ifaceIndex : Fin (n + 1)),
        Answers frame (m.processFrame frame ifaceIndex).2 (m.forwards frame ifaceIndex) ∧
          ((∀ s, m.forwards frame ifaceIndex = some s → ttl s.frame.data < ttl frame.data) ↔
            ttl frame.data ≠ 0 ∨ ¬ m.PassesOn frame ifaceIndex) := by
  refine ⟨?_, fun n m frame ifaceIndex => ⟨m.answers frame ifaceIndex, ?_⟩⟩
  · refine h.invariant Bounded (fun _ _ _ hi hok hstep => step_bounded hi hok hstep) fun f hf => ?_
    rw [hstart] at hf
    cases hf
  have hanswers := m.answers frame ifaceIndex
  rw [← m.forwards_isSome_iff frame ifaceIndex]
  cases hcopy : m.forwards frame ifaceIndex with
  | none => simp
  | some s =>
    rw [hcopy] at hanswers
    have hlt := ttl_sub_one_lt_iff (ttl frame.data)
    rw [← hanswers.copyOf.ttl_eq] at hlt
    simp [hlt]

/-! A server whose interface leads back to itself. -/

instance decidableAliveOnArrival (net : Network ports) (e : Event ports) : Decidable (net.AliveOnArrival e) :=
  match e with
  | .arrives k => decidable_of_iff (∀ f ∈ net.flying[k]?,
      ttl f.frame.data ≠ 0 ∨ ¬ (net.machines f.port.owner).PassesOn f.frame f.port.ifaceIndex) Iff.rfl
  | .lost _ | .built _ _ | .command _ _ => .isTrue trivial

def loopPorts : Unit → ℕ := fun _ => 0

def loopPort : Port loopPorts := ⟨(), 0⟩

def loopNet : Network loopPorts := ⟨fun _ => .server (ServerMachine.initialize_ ServerMachine.oneInterface), []⟩

def passedMessage : Buffer :=
  packet (fillHeader (Vector.replicate 6 2) .message 0 0x0a000001 0x0a000002 5000 5001 3)

theorem forwarding_consumes_ttl_twice :
    ∃ net', play (step fun _ => [loopPort]) loopNet
    [.built passedMessage loopPort, .arrives 0, .arrives 0] = some net' ∧
      net'.flying.map (fun f => (f.forwarded, ttl f.frame.data)) = [(2, 62)] ∧
      ∀ f ∈ net'.flying, f.forwarded + (ttl f.frame.data).toNat ≤ 255 := by
  let moves : List (Event loopPorts) := [.built passedMessage loopPort, .arrives 0, .arrives 0]
  have hplay : ∃ net', play (step fun _ => [loopPort]) loopNet moves = some net' ∧
      net'.flying.map (fun f => (f.forwarded, ttl f.frame.data)) = [(2, 62)] := by
    decide
  have hok : AllOk (step fun _ => [loopPort]) AliveOnArrival loopNet moves := by decide
  obtain ⟨net', hnet, hflying⟩ := hplay
  exact ⟨net', hnet, hflying, (forwarding_consumes_ttl _ rfl (reaches_of_allOk moves hok hnet)).1⟩

def spentMessage : Buffer := { passedMessage with data := consumeTtl (store passedMessage.data 22 [1]) }

theorem spent_ttl_wraps :
    ∃ s,
      (ServerMachine.processFrame (ServerMachine.initialize_ ServerMachine.oneInterface) spentMessage 0).2.frames =
        [s] ∧
      (ServerMachine.initialize_ ServerMachine.oneInterface).forwards spentMessage = some s ∧
      ttl spentMessage.data = 0 ∧ ttl s.frame.data = 255 := by
  have hpass :
    ((ServerMachine.initialize_ ServerMachine.oneInterface).forwards spentMessage).isSome = true := by decide
  have hspent : ttl spentMessage.data = 0 := by decide
  obtain ⟨s, hs⟩ := Option.isSome_iff_exists.mp hpass
  have hanswers := ServerMachine.answers (ServerMachine.initialize_ ServerMachine.oneInterface) spentMessage 0
  rw [hs] at hanswers
  refine ⟨s, hanswers.eq_singleton, hs, hspent, ?_⟩
  rw [hanswers.copyOf.ttl_eq, hspent]
  rfl

end Network

end Network

end CourseArchive.HolePunching
