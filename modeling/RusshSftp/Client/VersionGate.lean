import RusshSftp.Client.Invariant

/-!
# The version gate

`SessionInner` remembers the version of the first `Version` packet that it hands to
a call, and hands over replies to requests only from then on.
-/

set_option autoImplicit false

namespace RusshSftp.Client

theorem validate_ok {version : Option UInt32} {key : Key} (valid : validate version key = .ok ()) :
    key.isSome = version.isSome := by
  cases key <;> cases version <;> first | rfl | cases valid

theorem versionAfter_changed {version : Option UInt32} {key : Key} {packet : Packet}
    (replyKey : packet.replyKey? = some key) (changed : versionAfter version key packet ≠ version) :
    version = none ∧ key = none ∧
      ∃ p, packet = .version p ∧ versionAfter version key packet = some p.version := by
  cases packet with
  | version p =>
      cases replyKey
      cases version with
      | none => exact ⟨rfl, rfl, p, rfl, rfl⟩
      | some v => exact absurd rfl changed
  | _ =>
      refine absurd ?_ changed
      cases valid : validate version key <;> simp [versionAfter, valid]

theorem version_unchanged {s s' : State} {action : Action} (taken : step s action = some s')
    (other : ∀ c frame, action ≠ .deliver c frame) : s'.version = s.version := by
  cases stepped taken with
  | delivered busy => exact absurd rfl (other _ _)
  | refused busy => exact absurd rfl (other _ _)
  | _ => rfl

/-- The one way in which the version changes. -/
theorem version_changed {s s' : State} {action : Action} (inv : Consistent s)
    (taken : step s action = some s') (changed : s'.version ≠ s.version) :
    s.version = none ∧ ∃ c frame p call,
      action = .deliver c frame ∧ s.reader = .sending frame none (.version p) c ∧
      s'.version = some p.version ∧ s.calls c = some call ∧ call.job = .init ∧
      call.key = some none ∧ Placed s s' c ⟨frame, .ok (.version p)⟩ := by
  cases stepped taken with
  | delivered busy present receiving empty =>
      obtain ⟨replyKey, _, call, was, registered⟩ := inv.sending _ _ _ _ busy
      rw [present] at was
      cases was
      obtain ⟨unset, rfl, p, rfl, after⟩ := versionAfter_changed replyKey changed
      refine ⟨unset, _, _, p, _, rfl, busy, after, present,
        (inv.initKey _ _ present).mp registered.key, registered.key,
        _, _, present, empty, State.setCall_same _ _ _, ?_⟩
      rw [unset]
      rfl
  | refused busy => exact absurd rfl changed
  | _ => exact absurd rfl changed

theorem version_kept {s s' : State} {action : Action} {v : UInt32} (inv : Consistent s)
    (taken : step s action = some s') (set : s.version = some v) : s'.version = some v := by
  by_cases changed : s'.version = s.version
  · rw [changed, set]
  · obtain ⟨unset, _⟩ := version_changed inv taken changed
    rw [unset] at set
    cases set

/-- Once set, the version stays what it is. -/
theorem version_stays {s s' : State} {actions : List Action} {v : UInt32} (inv : Consistent s)
    (run : Run.exec step s actions = some s') (set : s.version = some v) :
    s'.version = some v := by
  have kept : Run.Along step (fun t => Consistent t ∧ t.version = some v) s actions :=
    Run.along_of_keeps ⟨inv, set⟩ (fun t a t' holds taken =>
      ⟨holds.1.step taken, version_kept holds.1 taken holds.2⟩) actions
  exact (kept.last run).2

theorem placed_ok_version {s s' : State} {action : Action} {c : CallId} {frame : Nat}
    {packet : Packet} (inv : Consistent s) (taken : step s action = some s')
    (placed : Placed s s' c ⟨frame, .ok packet⟩) :
    ∃ key, packet.replyKey? = some key ∧ key.isSome = s.version.isSome := by
  obtain ⟨key, packet', _, busy, result, _⟩ := placed_by_deliver taken placed
  obtain ⟨replyKey, _⟩ := inv.sending _ _ _ _ busy
  cases valid : validate s.version key with
  | error err => rw [valid] at result; cases result
  | ok got =>
      rw [valid] at result
      cases result
      exact ⟨key, replyKey, validate_ok valid⟩

/-- A frame that holds no reply is done with when it is read. -/
theorem read_other {s s' : State} {bytes : Bytes} {inbox : List Bytes}
    (taken : step s .read = some s') (next : s.inbox = bytes :: inbox)
    (other : decodeReply bytes = none) : s'.reader = .idle := by
  cases stepped taken with
  | readReply idle next' decoded =>
      rw [next] at next'
      cases next'
      rw [other] at decoded
      cases decoded
  | readOther idle => exact idle

theorem decodeReply_request {bytes rest : Bytes} {packet : Packet}
    (read : Packet.tryFrom.run bytes = .ok (packet, rest)) (request : packet.isRequest = true) :
    decodeReply bytes = none := by
  rw [decodeReply, read]
  cases packet <;> first | rfl | cases request

theorem decodeReply_error {bytes : Bytes} {err : RusshSftp.Error}
    (read : Packet.tryFrom.run bytes = .error err) : decodeReply bytes = none := by
  rw [decodeReply, read]

theorem requests_unchanged_read {s s' : State} (taken : step s .read = some s') :
    s'.requests = s.requests := by
  cases stepped taken <;> rfl

theorem lookup_unknown {s s' : State} {key : Key} (taken : step s (.lookup key) = some s')
    (unknown : s.requests key = none) :
    s'.requests = s.requests ∧ s'.reader = .idle := by
  cases stepped taken with
  | found busy entry => rw [unknown] at entry; cases entry
  | unknown busy entry => exact ⟨rfl, rfl⟩

/-- The version gate, over every run. -/
theorem version_gate (limits : Limits) (actions : List Action) :
    (∀ s action s', Run.Takes step (State.new limits) actions s action s' →
      (s'.version ≠ s.version →
        s.version = none ∧ ∃ c frame p call,
          action = .deliver c frame ∧ s.reader = .sending frame none (.version p) c ∧
          s'.version = some p.version ∧ s.calls c = some call ∧ call.job = .init ∧
          call.key = some none ∧ Placed s s' c ⟨frame, .ok (.version p)⟩) ∧
      (∀ c frame packet id, Placed s s' c ⟨frame, .ok packet⟩ →
        packet.replyKey? = some (some id) → s.version ≠ none) ∧
      (∀ c frame p, Placed s s' c ⟨frame, .ok (.version p)⟩ → s.version = none) ∧
      (∀ bytes inbox, action = .read → s.inbox = bytes :: inbox →
        s'.version = s.version ∧ s'.requests = s.requests ∧
        ((∃ err, Packet.tryFrom.run bytes = .error err) ∨
          (∃ packet rest, Packet.tryFrom.run bytes = .ok (packet, rest) ∧
            packet.isRequest = true) →
          s'.reader = .idle)) ∧
      (∀ key, action = .lookup key → s.requests key = none →
        s'.version = s.version ∧ s'.requests = s.requests ∧ s'.reader = .idle)) ∧
    (∀ before after s s' v, actions = before ++ after →
      Run.exec step (State.new limits) before = some s →
      Run.exec step s after = some s' → s.version = some v → s'.version = some v) := by
  constructor
  · intro s action s' takes
    have inv : Consistent s :=
      (Run.along_of_keeps (Consistent.new limits) (fun _ _ _ inv taken => inv.step taken)
        actions).takes takes
    have taken := takes.stepped
    refine ⟨version_changed inv taken, ?_, ?_, ?_, ?_⟩
    · intro c frame packet id placed replyKey unset
      obtain ⟨key, same, both⟩ := placed_ok_version inv taken placed
      rw [replyKey] at same
      cases same
      rw [unset] at both
      cases both
    · intro c frame p placed
      obtain ⟨key, same, both⟩ := placed_ok_version inv taken placed
      cases same
      cases version : s.version with
      | none => rfl
      | some v => rw [version] at both; cases both
    · rintro bytes inbox rfl next
      refine ⟨version_unchanged taken (fun _ _ same => by cases same),
        requests_unchanged_read taken, ?_⟩
      rintro (⟨err, read⟩ | ⟨packet, rest, read, request⟩)
      · exact read_other taken next (decodeReply_error read)
      · exact read_other taken next (decodeReply_request read request)
    · rintro key rfl unknown
      obtain ⟨requests, idle⟩ := lookup_unknown taken unknown
      exact ⟨version_unchanged taken (fun _ _ same => by cases same), requests, idle⟩
  · intro before after s s' v _ first second set
    exact version_stays (Consistent.of_exec first) second set

end RusshSftp.Client
