import Am437x.Udp.Broadcast

/-!
# When an acknowledgement of the UDP broadcast is genuine

A reply in flight or queued always answers a message that its client has received. What the server
reports is nevertheless about the round it is in: the two agree just when no older reply is queued at the
time of the read.
-/

namespace Am437x.Udp

open Runs CString

variable {ι : Type*} {clients : List ι}

/-- Every reply that is on its way or queued is an `ACK` for a message that its client received. -/
def Inv (s : Net ι) : Prop :=
  ∀ r ∈ s.toServer ++ s.queue, (r.client, r.round) ∈ s.received ∧ r.payload = ackMsg

theorem inv_start (stdin buffer : List UInt8) : Inv (ι := ι) (.start stdin buffer) := by
  intro r hr
  cases hr

theorem Inv.of_subset {s t : Net ι} (hi : Inv s)
    (hsub : ∀ r ∈ t.toServer ++ t.queue, r ∈ s.toServer ++ s.queue)
    (hrec : t.received = s.received) : Inv t := by
  intro r hr
  rw [hrec]
  exact hi r (hsub r hr)

theorem eq_ackMsg_of_clientTurn {payload reply : List UInt8} (h : clientTurn payload = some reply) :
    reply = ackMsg := by
  unfold clientTurn at h
  split at h
  · exact (Option.some.inj h).symm
  · cases h

theorem receive_ackMsg (s : Server) : (s.receive (some ackMsg)).2 = true := rfl

/-! ## What each event does -/

theorem step_prompt {s t : Net ι} {sendOk : Bool} (h : step clients s (.prompt sendOk) = some t) :
    t.toServer = s.toServer ∧ t.queue = s.queue ∧ t.received = s.received ∧ t.acks = s.acks := by
  simp only [step] at h
  split at h
  · obtain rfl := Option.some.inj h
    exact ⟨rfl, rfl, rfl, rfl⟩
  · cases h

theorem step_deliver {s t : Net ι} {i : Nat} (h : step clients s (.deliver i) = some t) :
    ∃ d : Datagram ι, t.received = s.received ++ [(d.client, d.round)] ∧ t.queue = s.queue ∧ t.acks = s.acks ∧
      ∀ r ∈ t.toServer, r ∈ s.toServer ∨
        r.client = d.client ∧ r.round = d.round ∧ r.payload = ackMsg := by
  obtain ⟨d, -, rfl⟩ := Option.map_eq_some_iff.mp h
  refine ⟨d, rfl, rfl, rfl, fun r hr => ?_⟩
  rcases List.mem_append.mp hr with hr | hr
  · exact Or.inl hr
  · obtain ⟨payload, hpayload, rfl⟩ := Option.map_eq_some_iff.mp (Option.mem_toList.mp hr)
    exact Or.inr ⟨rfl, rfl, eq_ackMsg_of_clientTurn hpayload⟩

theorem step_arrive {s t : Net ι} {i : Nat} (h : step clients s (.arrive i) = some t) :
    (∀ r ∈ t.toServer ++ t.queue, r ∈ s.toServer ++ s.queue) ∧ t.received = s.received ∧
      t.acks = s.acks := by
  obtain ⟨r, hr, rfl⟩ := Option.map_eq_some_iff.mp h
  have hmem : r ∈ s.toServer := List.mem_of_getElem? hr
  refine ⟨fun r' hr' => ?_, rfl, rfl⟩
  simp only [List.mem_append, List.mem_singleton] at hr' ⊢
  rcases hr' with hr' | hr' | rfl
  · exact Or.inl (List.mem_of_mem_eraseIdx hr')
  · exact Or.inr hr'
  · exact Or.inl hmem

/-- Under the invariant a successful `recvfrom` reports the queued reply it takes. -/
theorem step_recvfrom {s t : Net ι} {i : Nat} (hi : Inv s)
    (h : step clients s (.recvfrom i) = some t) :
    ∃ r, s.queue[i]? = some r ∧ t.queue = s.queue.eraseIdx i ∧ t.toServer = s.toServer ∧
      t.received = s.received ∧ t.acks = s.acks ++ [{ round := s.server.round, reply := r }] := by
  simp only [step] at h
  split at h
  · obtain ⟨r, hr, rfl⟩ := Option.map_eq_some_iff.mp h
    have hack : r.payload = ackMsg :=
      (hi r (List.mem_append_right _ (List.mem_of_getElem? hr))).2
    refine ⟨r, hr, rfl, rfl, rfl, ?_⟩
    rw [hack, receive_ackMsg]
    rfl
  · cases h

theorem step_timeout {s t : Net ι} (h : step clients s .timeout = some t) :
    t.toServer = s.toServer ∧ t.queue = s.queue ∧ t.received = s.received ∧ t.acks = s.acks := by
  simp only [step] at h
  split at h
  · obtain rfl := Option.some.inj h
    exact ⟨rfl, rfl, rfl, rfl⟩
  · cases h

/-- While the server waits, `recvfrom` may take any queued reply. -/
theorem recvfrom_enabled {s t : Net ι} {i : Nat} (h : step clients s (.recvfrom i) = some t) {r : Reply ι}
    (hr : r ∈ s.queue) : ∃ j t', step clients s (.recvfrom j) = some t' ∧ s.queue[j]? = some r := by
  obtain ⟨j, hj⟩ := List.mem_iff_getElem?.mp hr
  have hwait : s.server.phase = .waiting := by
    by_contra hne
    simp only [step, if_neg hne] at h
    cases h
  have henabled : (step clients s (.recvfrom j)).isSome := by
    simp only [step, if_pos hwait, hj]
    rfl
  obtain ⟨t', ht'⟩ := Option.isSome_iff_exists.mp henabled
  exact ⟨j, t', ht', hj⟩

/-! ## What one step keeps and reports -/

theorem acks_eq_of_step {s t : Net ι} {e : Event} (h : step clients s e = some t)
    (he : ∀ i, e ≠ .recvfrom i) : t.acks = s.acks := by
  cases e with
  | prompt sendOk => exact (step_prompt h).2.2.2
  | loseDatagram i => exact (Option.some.inj h) ▸ rfl
  | loseReply i => exact (Option.some.inj h) ▸ rfl
  | deliver i =>
    obtain ⟨d, -, -, hacks, -⟩ := step_deliver h
    exact hacks
  | arrive i => exact (step_arrive h).2.2
  | recvfrom i => exact absurd rfl (he i)
  | timeout => exact (step_timeout h).2.2.2

theorem inv_step {s t : Net ι} {e : Event} (hi : Inv s) (h : step clients s e = some t) : Inv t := by
  cases e with
  | prompt sendOk =>
    obtain ⟨hto, hq, hrec, -⟩ := step_prompt h
    exact hi.of_subset (by rw [hto, hq]; exact fun _ => id) hrec
  | loseDatagram i =>
    obtain rfl := Option.some.inj h
    exact hi
  | loseReply i =>
    obtain rfl := Option.some.inj h
    refine hi.of_subset (fun r hr => ?_) rfl
    rcases List.mem_append.mp hr with hr | hr
    · exact List.mem_append_left _ (List.mem_of_mem_eraseIdx hr)
    · exact List.mem_append_right _ hr
  | deliver i =>
    obtain ⟨d, hrec, hq, -, hto⟩ := step_deliver h
    have hold : ∀ r ∈ s.toServer ++ s.queue,
        (r.client, r.round) ∈ t.received ∧ r.payload = ackMsg := by
      intro r hr
      rw [hrec]
      exact ⟨List.mem_append_left _ (hi r hr).1, (hi r hr).2⟩
    intro r hr
    rcases List.mem_append.mp hr with hr | hr
    · rcases hto r hr with hr | ⟨hclient, hround, hpayload⟩
      · exact hold r (List.mem_append_left _ hr)
      · refine ⟨?_, hpayload⟩
        rw [hrec, hclient, hround]
        exact List.mem_append_right _ (List.mem_singleton.mpr rfl)
    · exact hold r (List.mem_append_right _ (hq ▸ hr))
  | arrive i =>
    obtain ⟨hsub, hrec, -⟩ := step_arrive h
    exact hi.of_subset hsub hrec
  | recvfrom i =>
    obtain ⟨r, -, hq, hto, hrec, -⟩ := step_recvfrom hi h
    refine hi.of_subset (fun r hr => ?_) hrec
    rw [hto, hq] at hr
    rcases List.mem_append.mp hr with hr | hr
    · exact List.mem_append_left _ hr
    · exact List.mem_append_right _ (List.mem_of_mem_eraseIdx hr)
  | timeout =>
    obtain ⟨hto, hq, hrec, -⟩ := step_timeout h
    exact hi.of_subset (by rw [hto, hq]; exact fun _ => id) hrec

/-- What the read of a queued reply reports is genuine just when the reply is not an old one. -/
theorem genuine_iff {s t : Net ι} {i : Nat} {r : Reply ι} {a : Ack ι} (hi : Inv s)
    (h : step clients s (.recvfrom i) = some t) (hr : s.queue[i]? = some r)
    (ha : t.acks = s.acks ++ [a]) : a.Genuine t ↔ r.round = s.server.round := by
  obtain ⟨r', hr', -, -, hrec, hacks⟩ := step_recvfrom hi h
  obtain rfl : r = r' := Option.some.inj (hr.symm.trans hr')
  obtain rfl : { round := s.server.round, reply := r } = a :=
    List.singleton_inj.mp (List.append_cancel_left (hacks.symm.trans ha))
  have hreceived : (r.client, r.round) ∈ s.received :=
    (hi r (List.mem_append_right _ (List.mem_of_getElem? hr))).1
  constructor
  · exact And.left
  · intro hround
    refine ⟨hround, ?_⟩
    rw [hrec]
    exact hround ▸ hreceived

/-- In particular, what the step itself reports is genuine. -/
theorem AckGenuine.report {s t : Net ι} {e : Event} {a : Ack ι} (hall : AckGenuine clients s e t)
    (h : step clients s e = some t) (ha : t.acks = s.acks ++ [a]) : a.Genuine t := by
  have hsame : SameCall e e := by
    cases e with
    | recvfrom i => trivial
    | _ => rfl
  exact hall e t hsame h a ha

theorem ackGenuine_iff {s t : Net ι} {e : Event} (hi : Inv s) (h : step clients s e = some t) :
    AckGenuine clients s e t ↔ NoStaleReply s e t := by
  constructor
  · intro hall i he r hr
    subst he
    obtain ⟨j, t', ht', hj⟩ := recvfrom_enabled h hr
    obtain ⟨r', -, -, -, -, hacks⟩ := step_recvfrom hi ht'
    exact (genuine_iff hi ht' hj hacks).mp (hall (.recvfrom j) t' trivial ht' _ hacks)
  · intro hno e' t' hsame ht' a ha
    have hgrows : t'.acks ≠ s.acks := by simp [ha]
    cases e' with
    | recvfrom j =>
      obtain ⟨i, rfl⟩ : ∃ i, e = .recvfrom i := by
        cases e with
        | recvfrom i => exact ⟨i, rfl⟩
        | _ => cases hsame
      obtain ⟨r, hr, -⟩ := step_recvfrom hi ht'
      exact (genuine_iff hi ht' hr ha).mpr (hno i rfl r (List.mem_of_getElem? hr))
    | _ => exact absurd (acks_eq_of_step ht' (by simp)) hgrows

/-! ## Main result -/

/-- With any clients, every acknowledgement reported in a run of the broadcast loop is genuine, whichever
queued replies are read, just when no reply to an earlier message is queued at a read. -/
theorem broadcast_acks_genuine_iff (clients : List ι) (stdin buffer : List UInt8)
    (events : List Event) :
    AllSteps (step clients) (AckGenuine clients) (.start stdin buffer) events ↔
      AllSteps (step clients) NoStaleReply (.start stdin buffer) events := by
  apply allSteps_iff_of_inv Inv
  · intro s e t hi h
    exact ackGenuine_iff hi h
  · intro s e t hi h _
    exact inv_step hi h
  · exact inv_start stdin buffer

/-- One client and the messages `a` and `b`. The reply to `a` comes after the timeout, the datagram with
`b` is lost, and the reply to `a` is reported as the acknowledgement of `b`. -/
theorem late_reply_acknowledges_next :
    (run (step [0]) (.start [0x61, 0x0a, 0x62, 0x0a] [])
      [.prompt true, .deliver 0, .timeout, .arrive 0, .prompt true, .loseDatagram 0, .recvfrom 0]).map
        (fun s => (s.received, s.acks)) =
      some ([((0 : Nat), 1)],
        [{ round := 2, reply := { client := 0, round := 1, payload := ackMsg } }]) ∧
    ¬ AllSteps (step [(0 : Nat)]) (AckGenuine [0]) (.start [0x61, 0x0a, 0x62, 0x0a] [])
      [.prompt true, .deliver 0, .timeout, .arrive 0, .prompt true, .loseDatagram 0, .recvfrom 0] := by
  refine ⟨by decide, fun h => ?_⟩
  have hack := AllSteps.of_run
    [Event.prompt true, Event.deliver 0, Event.timeout, Event.arrive 0, Event.prompt true,
      Event.loseDatagram 0] h rfl rfl
  have hgenuine := hack (.recvfrom 0) _ trivial rfl _ rfl
  exact absurd hgenuine.1 (by decide)

end Am437x.Udp
