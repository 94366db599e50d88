import CourseArchive.Bgp.Pair

/-! Which attempt the frames belong to that two joined sessions exchange. -/

namespace CourseArchive.Bgp

open Lib Session

/-- `incoming` and `outgoing` are the frames on their way to and from the session. After a clean start, what was
already coming in then does not lead the session into `ESTABLISHED`. -/
structure Traced (s : Session) (h : History) (incoming outgoing : List Message) : Prop where
  opens : ∀ e ∈ outgoing, e.type = .bgpOpen → e.attempt ∈ h.opened
  answers : ∀ e ∈ incoming, e.type = .keepalive → e.attempt ∈ h.opened
  current : h.clean → (∀ e ∈ outgoing, e.type = .bgpOpen → e.attempt = h.attempt) ∧
    ∃ old new, incoming = old ++ new ∧ (∀ frames ∈ awaited s.state, ¬frames.Sublist (old.map (·.type))) ∧
      ∀ e ∈ new, e.type = .keepalive → e.attempt = h.attempt

namespace Traced

variable {s : Session} {h : History} {incoming outgoing sent rest : List Message} {e : Message}
  {r : Session × List Signal}

lemma initial (rto ht crt : ℕ) : Traced ⟨.idle, rto, ht, crt, false, false⟩ .initial [] [] :=
  ⟨by simp, by simp, by simp [History.initial]⟩

lemma setUnheard (ht : Traced s h incoming outgoing) (unheard : ℕ) :
    Traced s { h with unheard } incoming outgoing :=
  ⟨ht.opens, ht.answers, ht.current⟩

lemma peer_sends (ht : Traced s h incoming outgoing) (hs : ∀ m ∈ sent, m.type ≠ .keepalive) :
    Traced s h (incoming ++ sent) outgoing where
  opens := ht.opens
  answers m hm hk := (List.mem_append.mp hm).elim (fun hm => ht.answers m hm hk) fun hm => absurd hk (hs m hm)
  current hc := by
    obtain ⟨hopens, old, new, rfl, hold, hnew⟩ := ht.current hc
    refine ⟨hopens, old, new ++ sent, by rw [List.append_assoc], hold, fun m hm hk => ?_⟩
    exact (List.mem_append.mp hm).elim (fun hm => hnew m hm hk) fun hm => absurd hk (hs m hm)

lemma peer_receives (ht : Traced s h incoming (e :: rest))
    (hs : ∀ m ∈ sent, m.type = .keepalive → e.type = .bgpOpen ∧ m.attempt = e.attempt) :
    Traced s h (incoming ++ sent) rest where
  opens m hm := ht.opens m (List.mem_cons_of_mem _ hm)
  answers m hm hk := by
    rcases List.mem_append.mp hm with hm | hm
    · exact ht.answers m hm hk
    · rw [(hs m hm hk).2]
      exact ht.opens e List.mem_cons_self (hs m hm hk).1
  current hc := by
    obtain ⟨hopens, old, new, rfl, hold, hnew⟩ := ht.current hc
    refine ⟨fun m hm => hopens m (List.mem_cons_of_mem _ hm), old, new ++ sent, by rw [List.append_assoc], hold,
      fun m hm hk => ?_⟩
    rcases List.mem_append.mp hm with hm | hm
    · exact hnew m hm hk
    · rw [(hs m hm hk).2]
      exact hopens e List.mem_cons_self (hs m hm hk).1

lemma quiet (ht : Traced s h incoming outgoing) (hq : s.Quiet r) : Traced r.1 h incoming outgoing :=
  ⟨ht.opens, ht.answers, fun hc => by rw [hq.awaited]; exact ht.current hc⟩

lemma sends (ht : Traced s h incoming outgoing) (hs : ∀ m ∈ sent, m.type ≠ .bgpOpen) :
    Traced s h incoming (outgoing ++ sent) where
  opens m hm ho := (List.mem_append.mp hm).elim (fun hm => ht.opens m hm ho) fun hm => absurd ho (hs m hm)
  answers := ht.answers
  current hc := by
    refine ⟨fun m hm ho => ?_, (ht.current hc).2⟩
    exact (List.mem_append.mp hm).elim (fun hm => (ht.current hc).1 m hm ho) fun hm => absurd ho (hs m hm)

lemma enters (ht : Traced s h incoming outgoing) (he : Enters r) :
    Traced r.1 { h with
      attempt := h.attempt + 1
      clean := startsClean (incoming.map (·.type)) (outgoing.map (·.type)) } incoming outgoing where
  opens := ht.opens
  answers := ht.answers
  current hc := by
    simp only [startsClean, Bool.and_eq_true, Bool.not_eq_true', List.all_eq_true] at hc
    refine ⟨fun m hm ho => ?_, incoming, [], (List.append_nil _).symm, fun frames hf hsub => ?_, by simp⟩
    · have hno : MessageType.bgpOpen ∉ outgoing.map (·.type) := by simpa using hc.1
      exact absurd (List.mem_map.mpr ⟨m, hm, ho⟩) hno
    · rw [he.state] at hf
      have := hc.2 frames hf
      rw [List.isSublist_iff_sublist.mpr hsub] at this
      exact Bool.noConfusion this

lemma receives (ht : Traced s h (e :: rest) outgoing) (ha : s.Answers e.type r) {opened : List ℕ}
    (hkeep : ∀ k ∈ h.opened, k ∈ opened)
    (hs : ∀ m ∈ sent, m.type = .bgpOpen → m.attempt = h.attempt ∧ h.attempt ∈ opened) :
    Traced r.1 { h with opened } rest (outgoing ++ sent) where
  opens m hm ho := by
    -- the frame that comes in was either there when the attempt began or has been sent since
    rcases List.mem_append.mp hm with hm | hm
    · exact hkeep _ (ht.opens m hm ho)
    · rw [(hs m hm ho).1]
      exact (hs m hm ho).2
  answers m hm hk := hkeep _ (ht.answers m (List.mem_cons_of_mem _ hm) hk)
  current hc := by
    obtain ⟨hopens, old, new, heq, hold, hnew⟩ := ht.current hc
    refine ⟨fun m hm ho => (List.mem_append.mp hm).elim (fun hm => hopens m hm ho) fun hm => (hs m hm ho).1, ?_⟩
    cases old with
    | nil =>
      obtain rfl : e :: rest = new := heq
      refine ⟨[], rest, rfl, fun frames hf hsub => ?_, fun m hm => hnew m (List.mem_cons_of_mem _ hm)⟩
      obtain rfl : frames = [] := List.sublist_nil.mp hsub
      revert hf
      cases r.1.state <;> simp [awaited, handshakes]
    | cons e' old =>
      obtain ⟨rfl, rfl⟩ : e = e' ∧ rest = old ++ new := by simpa using heq
      refine ⟨old, new, rfl, fun frames hf hsub => ?_, hnew⟩
      obtain ⟨frames', hf', rfl | rfl⟩ := ha.awaited frames hf
      · exact hold _ hf' (hsub.trans (by simp))
      · exact hold _ hf' (hsub.cons_cons _)

lemma keepalive_attempt (ht : Traced s h (e :: rest) outgoing) (hs : s.state = .oConfirm)
    (he : e.type = .keepalive) :
    e.attempt ∈ h.opened ∧ (h.clean → e.attempt = h.attempt) := by
  refine ⟨ht.answers e List.mem_cons_self he, fun hc => ?_⟩
  obtain ⟨-, old, new, heq, hold, hnew⟩ := ht.current hc
  cases old with
  | nil =>
    obtain rfl : e :: rest = new := heq
    exact hnew e List.mem_cons_self he
  | cons e' old =>
    obtain ⟨rfl, rfl⟩ : e = e' ∧ rest = old ++ new := by simpa using heq
    refine absurd ?_ (hold [.keepalive] (by rw [hs]; exact List.mem_singleton_self _))
    simp [he]

end Traced

namespace Pair

variable {p p' : Pair} {x y : Side} {r : Session × List Signal}

def Traced (p : Pair) (x : Side) : Prop :=
  Bgp.Traced (p.session.get x) (p.history.get x) (p.inFlight.get x) (p.inFlight.get x.other)

lemma Traced.setUnheard (h : p.Traced x) (unheard : ℕ) : (p.setUnheard y unheard).Traced x := by
  rcases y.eq_or_eq_other x with rfl | rfl
  · simpa [Traced, Pair.setUnheard] using Bgp.Traced.setUnheard h unheard
  · simpa [Traced, Pair.setUnheard] using h

lemma traced_of_both (h : p.Traced x) (h' : p.Traced x.other) (y : Side) : p.Traced y := by
  rcases x.eq_or_eq_other y with rfl | rfl
  · exact h
  · exact h'

lemma traced_act (h : ∀ y, p.Traced y) (hr : (p.session.get x).Quiet r ∨ Enters r) (y : Side) :
    (p.act x 0 r).Traced y := by
  have hself : p.Traced x := h x
  have hother : p.Traced x.other := h x.other
  simp only [Traced, Side.other_other] at hself hother
  refine traced_of_both (x := x) ?_ ?_ y
  all_goals simp only [Traced, act_session, act_session_other, act_incoming, act_outgoing, act_history,
    act_history_other, Side.other_other]
  · rcases hr with hr | hr
    · rw [hr.history, hr.sends]
      simpa using hself.quiet hr
    · rw [hr.history, hr.sends]
      exact (hself.enters hr).sends (by simp)
  · refine hother.peer_sends fun m hm => ?_
    rcases hr with hr | hr
    · simp [hr.sends] at hm
    · simp only [hr.sends, List.map_cons, List.map_nil, List.mem_singleton] at hm
      simp [hm]

lemma traced_deliver (h : ∀ y, p.Traced y) {e : Message} {rest : List Message} (he : p.inFlight.get x = e :: rest)
    (y : Side) : ((p.take x e rest).act x e.attempt ((p.session.get x).receive e.type)).Traced y := by
  have hself : p.Traced x := h x
  have hother : p.Traced x.other := h x.other
  have ha := receive_answers (p.session.get x) e.type
  simp only [Traced, Side.other_other, he] at hself hother
  obtain ⟨unheard, hhistory⟩ : ∃ unheard, (p.take x e rest).history.get x = { p.history.get x with unheard } := by
    rw [take]
    split_ifs
    · exact ⟨0, Both.get_set x⟩
    · exact ⟨_, rfl⟩
  have hhistory' : (p.take x e rest).history.get x.other = p.history.get x.other := by
    rw [take]
    split_ifs
    · exact Both.get_set_other x
    · rfl
  have hin : (p.take x e rest).inFlight.get x = rest := Both.get_set x
  have hout : (p.take x e rest).inFlight.get x.other = p.inFlight.get x.other := Both.get_set_other x
  have hsession : (p.take x e rest).session = p.session := rfl
  refine traced_of_both (x := x) ?_ ?_ y
  all_goals simp only [Traced, act_session, act_session_other, act_incoming, act_outgoing, act_history,
    act_history_other, Side.other_other, hhistory, hhistory', hin, hout, hsession]
  · obtain ⟨opened, hrecord, hkeep, hopen⟩ := ha.opened (startsClean (rest.map (·.type))
      ((p.inFlight.get x.other).map (·.type))) { p.history.get x with unheard }
    rw [hrecord]
    refine (hself.setUnheard unheard).receives ha hkeep fun m hm ho => ?_
    obtain ⟨type, htype, rfl⟩ := List.mem_map.mp hm
    obtain rfl : type = .bgpOpen := ho
    exact ⟨rfl, hopen htype⟩
  · refine hother.peer_receives fun m hm hk => ?_
    obtain ⟨type, htype, rfl⟩ := List.mem_map.mp hm
    obtain rfl : type = .keepalive := hk
    exact ⟨(ha.sends _ htype).2.2 rfl, rfl⟩

lemma traced_announce (h : ∀ y, p.Traced y) (y : Side) :
    (p.act x 0 (p.session.get x, [.sent .update])).Traced y := by
  have hself : p.Traced x := h x
  have hother : p.Traced x.other := h x.other
  simp only [Traced, Side.other_other] at hself hother
  refine traced_of_both (x := x) ?_ ?_ y
  all_goals simp only [Traced, act_session, act_session_other, act_incoming, act_outgoing, act_history,
    act_history_other, Side.other_other]
  · exact hself.sends (by simp [sentType])
  · exact hother.peer_sends (by simp [sentType])

lemma traced_step {mv : PairMove} (h : ∀ y, p.Traced y) (hstep : p.step mv = some p') (y : Side) :
    p'.Traced y := by
  cases mv with
  | start x =>
    obtain rfl := Option.some_injective _ hstep
    exact traced_act h (start_quiet_or_enters _) y
  | tick x =>
    obtain rfl := Option.some_injective _ hstep
    exact traced_act (p := p.setUnheard x _) (fun y => (h y).setUnheard _) (tick_quiet_or_enters _) y
  | announce x =>
    rw [step] at hstep
    split_ifs at hstep
    · obtain rfl := Option.some_injective _ hstep
      exact traced_announce (p := p.setUnheard x.other 0) (fun y => (h y).setUnheard 0) y
    · obtain rfl := Option.some_injective _ hstep
      exact h y
  | deliver x =>
    rw [step] at hstep
    cases he : p.inFlight.get x with
    | nil => simp [he] at hstep
    | cons e rest =>
      rw [he] at hstep
      obtain rfl := Option.some_injective _ hstep
      exact traced_deliver h he y

lemma traced_of_reaches {timers : Both (ℕ × ℕ × ℕ)} (h : Reaches step anyMove (initial timers) p) (x : Side) :
    p.Traced x := by
  refine h.invariant (fun p => ∀ x, p.Traced x) (fun _ _ _ hp _ hstep => traced_step hp hstep) (fun y => ?_) x
  cases y <;> exact Bgp.Traced.initial _ _ _

lemma act_established {answered : ℕ} (hr : r.1.state = .established → (p.session.get y).state = .established)
    (he : ((p.act y answered r).session.get x).state = .established) : (p.session.get x).state = .established := by
  rcases y.eq_or_eq_other x with rfl | rfl
  · rw [act_session] at he
    exact hr he
  · rwa [act_session_other] at he

lemma deliver_of_established {mv : PairMove} (hstep : p.step mv = some p')
    (hne : (p.session.get x).state ≠ .established) (he : (p'.session.get x).state = .established) :
    mv = .deliver x ∧ (p.session.get x).state = .oConfirm ∧ ∃ e rest, p.inFlight.get x = e :: rest ∧
      e.type = .keepalive := by
  cases mv with
  | start y =>
    obtain rfl := Option.some_injective _ hstep
    exact absurd (act_established (established_of_quiet_or_enters (start_quiet_or_enters _)) he) hne
  | tick y =>
    obtain rfl := Option.some_injective _ hstep
    exact absurd (act_established (p := p.setUnheard y _)
      (established_of_quiet_or_enters (tick_quiet_or_enters _)) he) hne
  | announce y =>
    rw [step] at hstep
    split_ifs at hstep
    · obtain rfl := Option.some_injective _ hstep
      exact absurd
        (act_established (p := p.setUnheard y.other 0) (r := (p.session.get y, [.sent .update])) id he) hne
    · obtain rfl := Option.some_injective _ hstep
      exact absurd he hne
  | deliver y =>
    rw [step] at hstep
    cases hin : p.inFlight.get y with
    | nil => simp [hin] at hstep
    | cons e rest =>
      rw [hin] at hstep
      obtain rfl := Option.some_injective _ hstep
      rcases y.eq_or_eq_other x with rfl | rfl
      · rw [act_session] at he
        obtain ⟨hkeep, hconfirm⟩ := receive_established hne he
        exact ⟨rfl, hconfirm, e, rest, hin, hkeep⟩
      · rw [act_session_other] at he
        exact absurd he hne

lemma answered_attempt {mv : PairMove} (h : p.Traced x) (hstep : p.step mv = some p')
    (hne : (p.session.get x).state ≠ .established) (he : (p'.session.get x).state = .established) :
    mv = .deliver x ∧ ∃ e rest, p.inFlight.get x = e :: rest ∧ e.type = .keepalive ∧
      e.attempt ∈ (p.history.get x).opened ∧
      ((p.history.get x).clean → e.attempt = (p.history.get x).attempt) := by
  obtain ⟨hmv, hconfirm, e, rest, hin, hkeep⟩ := deliver_of_established hstep hne he
  rw [Traced, hin] at h
  exact ⟨hmv, e, rest, hin, hkeep, h.keepalive_attempt hconfirm hkeep⟩

end Pair

end CourseArchive.Bgp
