import RusshSftp.Conversation

/-!
# The handshake

`new_opts` calls `init`, looks for the extensions that it knows in the reply, and asks for the
limits where the server has them.  Extended requests are answered by packets of any type; `limits`
and `statvfs` take the words out of an `ExtendedReply`.
-/

set_option autoImplicit false

namespace RusshSftp

open Client Framing ByteCodec

variable {σ ε : Type}

/-! ## Calls of the peer -/

section
variable (handler : Server.Handler σ ε)

theorem Peer.serve_init (p : Peer σ) (first : p.version = none) :
    p.serve handler .init =
      match handler.init 3 .empty p.server with
      | (.ok version, server) => (.ok version, { p with version := some version.version, server })
      | (.error _, server) => (.error .timeout, { p with server }) := by
  have called : Server.processRequest handler (Job.init.packet none).normalise p.server =
      Server.intoWrap 0 handler .version (handler.init 3 .empty p.server) := rfl
  have free : Job.init.limited p.limits p.handles = none := rfl
  rcases answered : handler.init 3 .empty p.server with ⟨err | version, server⟩
  · rw [answered] at called
    rw [serve, Peer.exchange_free free called]
    rfl
  · rw [answered] at called
    rw [serve, Peer.exchange_free free called]
    simp [Packet.replyKey?, Job.keyAt, validate, first, versionAfter,
      SessionCall.initResult, Except.map, Job.idAfter, Job.counted, Packet.normalise]

/-- The answer to an extended request: the session looks for its own id only. -/
def Client.extendedAnswer (id : UInt32) (result : Except ε Packet × σ) : SftpResult Packet :=
  let (packet, _) := Server.intoWrap id handler (fun packet => packet) result
  if packet.replyKey? = some (some id) then .ok packet.normalise else .error .timeout

theorem Client.versionAfter_reply {version : Option UInt32} {key : Key} {id : UInt32}
    {reply : Packet} (own : reply.replyKey? = some (some id)) :
    versionAfter version key reply = version := by
  unfold versionAfter
  cases validate version key with
  | error err => cases reply <;> rfl
  | ok valid =>
      cases reply with
      | version p => cases own
      | _ => rfl

/-- A request whose answer has its own id returns what the method makes of that answer. -/
theorem Peer.serve_own {p : Peer σ} {r : Request} {reply : Packet} {server : σ}
    (initialised : p.version ≠ none) (free : r.operation.limited p.limits p.handles = none)
    (called : Server.intoWrap p.nextReqId handler r.normalise.toPacket
      (r.normalise.method handler p.nextReqId p.server) = (reply, server))
    (own : reply.replyKey? = some (some p.nextReqId)) :
    p.serve handler (.request r) =
      (r.returned (.ok reply.normalise), { p with
        nextReqId := p.nextReqId + 1, server
        handles := (Job.request r).counted (.ok reply.normalise) p.handles }) := by
  have answered := Link.processRequest_request handler r p.nextReqId p.server
  rw [called] at answered
  have ownNormalised : reply.normalise.replyKey? = some (some p.nextReqId) := by
    rw [normalise_replyKey, own]
  have valid : validate p.version (some p.nextReqId) = .ok () := by
    obtain ⟨v, version⟩ := Option.ne_none_iff_exists'.mp initialised
    rw [version]
    rfl
  have noLimit : (Job.request r).limited p.limits p.handles = none := free
  rw [serve, Peer.exchange_free noLimit answered]
  simp only [own, Job.keyAt, if_true, versionAfter_reply ownNormalised, valid]
  rfl

theorem Peer.serve_extended (p : Peer σ) (name : String) (data : Bytes)
    (initialised : p.version ≠ none) :
    p.serve handler (.request (.extended name data)) =
      (extendedAnswer handler p.nextReqId (handler.extended p.nextReqId name data p.server),
        { p with
          nextReqId := p.nextReqId + 1
          server := (handler.extended p.nextReqId name data p.server).2 }) := by
  have kept : (Server.intoWrap p.nextReqId handler (fun packet => packet)
      (handler.extended p.nextReqId name data p.server)).2 =
        (handler.extended p.nextReqId name data p.server).2 := by
    rcases handler.extended p.nextReqId name data p.server with ⟨_ | _, _⟩ <;> rfl
  rcases wrapped : Server.intoWrap p.nextReqId handler (fun packet => packet)
    (handler.extended p.nextReqId name data p.server) with ⟨reply, server⟩
  rw [wrapped] at kept
  rw [extendedAnswer, wrapped, ← kept]
  by_cases own : reply.replyKey? = some (some p.nextReqId)
  · rw [Peer.serve_own handler (r := .extended name data) initialised rfl wrapped own]
    simp only [own, if_true]
    rfl
  · have called : Server.processRequest handler ((Job.request (.extended name data)).packet
        (some p.nextReqId)).normalise p.server = (reply, server) :=
      (Link.processRequest_request handler (.extended name data) p.nextReqId p.server).trans wrapped
    have free : (Job.request (.extended name data)).limited p.limits p.handles = none := rfl
    rw [serve, Peer.exchange_free free called]
    simp only [own, Job.keyAt, if_false]
    rfl

/-- What `limits` and `statvfs` make of the answer. -/
def Client.extendedResult {α : Type} (decode : De α) : SftpResult Packet → SftpResult α
  | .ok (.extendedReply reply) => (decode.run' reply.data).mapError Client.Error.ofError
  | .ok (.status status) =>
      if status.statusCode ≠ .ok then .error (.status status) else .error .unexpectedPacket
  | .ok _ => .error .unexpectedPacket
  | .error err => .error err

theorem mapError_ok {δ δ' α : Type} {f : δ → δ'} {result : Except δ α} {a : α}
    (ok : result.mapError f = .ok a) : result = .ok a := by
  cases result with
  | error err => cases ok
  | ok a' => exact congrArg Except.ok (Except.ok.inj ok)

/-- There is a value just when the handler has replied under the id that it was given, and its
data begins with the value. -/
theorem Client.extendedResult_ok_iff {α : Type} (decode : De α) (id : UInt32)
    (result : Except ε Packet × σ) (v : α) :
    extendedResult decode (extendedAnswer handler id result) = .ok v ↔
      ∃ data, result.1 = .ok (.extendedReply ⟨id, data⟩) ∧ decode.run' data = .ok v := by
  obtain ⟨answer, s⟩ := result
  constructor
  · intro got
    cases answer with
    | error err =>
        have refused : extendedAnswer handler id (Except.error err, s) =
            .ok (Packet.error id (handler.into err)) := if_pos rfl
        rw [refused, Packet.error, Packet.ofStatus, extendedResult] at got
        split at got <;> cases got
    | ok packet =>
        have answered : extendedAnswer handler id (Except.ok packet, s) =
            if packet.replyKey? = some (some id) then .ok packet.normalise
            else .error .timeout := rfl
        rw [answered] at got
        by_cases own : packet.replyKey? = some (some id)
        · rw [if_pos own] at got
          cases packet with
          | extendedReply reply =>
              cases own
              refine ⟨reply.data, rfl, ?_⟩
              exact mapError_ok got
          | status status =>
              rw [Packet.normalise, extendedResult] at got
              · split at got <;> cases got
              all_goals simp
          | _ => cases got
        · rw [if_neg own] at got
          cases got
  · rintro ⟨data, rfl, read⟩
    have answered : extendedAnswer handler id (Except.ok (Packet.extendedReply ⟨id, data⟩), s) =
        .ok (.extendedReply ⟨id, data⟩) := if_pos rfl
    rw [answered, extendedResult, read]
    rfl

theorem Client.extendedResult_words_iff {α : Type} {decode : De α} {words : α → List UInt64}
    {count : Nat} (reads : ReadsWords decode words count) (id : UInt32)
    (result : Except ε Packet × σ) (v : α) :
    extendedResult decode (extendedAnswer handler id result) = .ok v ↔
      ∃ rest, result.1 = .ok (.extendedReply ⟨id, (words v).flatMap putU64 ++ rest⟩) := by
  rw [extendedResult_ok_iff]
  constructor
  · rintro ⟨data, replied, read⟩
    obtain ⟨rest, rfl⟩ := (reads.ok_iff data v).mp read
    exact ⟨rest, replied⟩
  · rintro ⟨rest, replied⟩
    exact ⟨_, replied, (reads.ok_iff _ v).mpr ⟨rest, rfl⟩⟩

namespace Client.Async

theorem run_extended (p : Peer σ) (name : String) (data : Bytes) (initialised : p.version ≠ none) :
    (RawSftpSession.extended name data).run.run (Peer.serve handler) p =
      (extendedAnswer handler p.nextReqId (handler.extended p.nextReqId name data p.server),
        { p with
          nextReqId := p.nextReqId + 1
          server := (handler.extended p.nextReqId name data p.server).2 }) :=
  p.serve_extended handler name data initialised

theorem run_limits (p : Peer σ) (initialised : p.version ≠ none) :
    RawSftpSession.limits.run.run (Peer.serve handler) p =
      (extendedResult LimitsExtension.deserialize (extendedAnswer handler p.nextReqId
          (handler.extended p.nextReqId LIMITS [] p.server)),
        { p with
          nextReqId := p.nextReqId + 1
          server := (handler.extended p.nextReqId LIMITS [] p.server).2 }) := by
  rw [RawSftpSession.limits, Program.run_except_bind, run_extended handler p LIMITS [] initialised]
  rcases extendedAnswer handler p.nextReqId (handler.extended p.nextReqId LIMITS [] p.server) with
    err | packet
  · rfl
  · cases packet with
    | status status =>
        dsimp only [extendedResult]
        split <;> rfl
    | _ => rfl

theorem run_statvfs (p : Peer σ) (path : String) (initialised : p.version ≠ none) :
    (RawSftpSession.statvfs path).run.run (Peer.serve handler) p =
      (extendedResult Statvfs.deserialize (extendedAnswer handler p.nextReqId
          (handler.extended p.nextReqId STATVFS (lengthPrefixed (Utf8.utf8Bytes path)) p.server)),
        { p with
          nextReqId := p.nextReqId + 1
          server := (handler.extended p.nextReqId STATVFS
            (lengthPrefixed (Utf8.utf8Bytes path)) p.server).2 }) := by
  have encoded : StatvfsExtension.tryInto ⟨path⟩ = .ok (lengthPrefixed (Utf8.utf8Bytes path)) :=
    StatvfsExtension.tryInto_eq ⟨path⟩
  rw [RawSftpSession.statvfs, Program.run_except_bind, encoded]
  show Program.run (Peer.serve handler) (ExceptT.run
    (RawSftpSession.extended STATVFS (lengthPrefixed (Utf8.utf8Bytes path)) >>= _)) p = _
  rw [Program.run_except_bind, run_extended handler p STATVFS _ initialised]
  rcases extendedAnswer handler p.nextReqId (handler.extended p.nextReqId STATVFS
    (lengthPrefixed (Utf8.utf8Bytes path)) p.server) with err | packet
  · rfl
  · cases packet with
    | status status =>
        dsimp only [extendedResult]
        split <;> rfl
    | _ => rfl

/-- `new_opts` against the handler's methods: the reply to `init`, and the limits if they are
announced. -/
theorem run_newOpts (start : σ) :
    SftpSession.newOpts.run.run (Peer.serve handler) (Peer.new start) =
      match handler.init 3 .empty start with
      | (.error _, server) => (.error .timeout, { Peer.new start with server })
      | (.ok version, server) =>
          if version.extensions.get LIMITS == some "1" then
            let answer := handler.extended 1 LIMITS [] server
            match extendedResult LimitsExtension.deserialize (extendedAnswer handler 1 answer) with
            | .ok limits =>
                (.ok { SftpSession.announced version with
                    limits := some (Limits.ofExtension limits) },
                  ⟨Limits.ofExtension limits, 2, 0, some version.version, answer.2⟩)
            | .error err => (.error err, ⟨.default, 2, 0, some version.version, answer.2⟩)
          else (.ok (SftpSession.announced version),
            ⟨.default, 1, 0, some version.version, server⟩) := by
  have called := Peer.serve_init handler (Peer.new start) rfl
  have first : (RawSftpSession.init).run.run (Peer.serve handler) (Peer.new start) =
      Peer.serve handler .init (Peer.new start) := rfl
  rw [SftpSession.newOpts, Program.run_except_bind, first, called]
  have at_start : (Peer.new start).server = start := rfl
  rw [at_start]
  rcases handler.init 3 .empty start with ⟨err | version, server⟩
  · rfl
  · by_cases limits : (version.extensions.get LIMITS == some "1") = true
    · dsimp only
      rw [if_pos limits, if_pos limits, Program.run_except_bind, run_limits _ _ (by simp)]
      simp only [Peer.new]
      rcases extendedResult LimitsExtension.deserialize
        (extendedAnswer handler 1 (handler.extended 1 LIMITS [] server)) with err | limits <;> rfl
    · dsimp only
      rw [if_neg limits, if_neg limits]
      rfl

/-- The handler has answered `init`, and, where it announces the limits, has replied to the request
for them with four words at least. -/
def Greets (start : σ) (extensions : Negotiated) : Prop :=
  ∃ version server, handler.init 3 .empty start = (.ok version, server) ∧
    (version.extensions.get LIMITS ≠ some "1" ∧ extensions = SftpSession.announced version ∨
      version.extensions.get LIMITS = some "1" ∧ ∃ limits rest,
        (handler.extended 1 LIMITS [] server).1 =
          .ok (.extendedReply ⟨1, limits.words.flatMap putU64 ++ rest⟩) ∧
        extensions = { SftpSession.announced version with
          limits := some (Limits.ofExtension limits) })

theorem newOpts_ok_iff (start : σ) (extensions : Negotiated) :
    (SftpSession.newOpts.run.run (Peer.serve handler) (Peer.new start)).1 = .ok extensions ↔
      Greets handler start extensions := by
  rw [run_newOpts, Greets]
  rcases handler.init 3 .empty start with ⟨err | version, server⟩
  · constructor
    · intro made
      cases made
    · rintro ⟨version, server, answered, -⟩
      cases answered
  · by_cases limits : version.extensions.get LIMITS = some "1"
    · dsimp only
      rw [if_pos (beq_iff_eq.mpr limits)]
      have answers (limits : LimitsExtension) := extendedResult_words_iff handler
        LimitsExtension.readsWords 1 (handler.extended 1 LIMITS [] server) limits
      constructor
      · intro made
        refine ⟨version, server, rfl, .inr ⟨limits, ?_⟩⟩
        split at made
        · rename_i found answered
          cases made
          obtain ⟨rest, replied⟩ := (answers found).mp answered
          exact ⟨found, rest, replied, rfl⟩
        · cases made
      · rintro ⟨_, _, answered, ⟨silent, -⟩ | ⟨-, found, rest, replied, rfl⟩⟩
        · cases answered
          exact absurd limits silent
        · cases answered
          rw [(answers found).mpr ⟨rest, replied⟩]
    · dsimp only
      rw [if_neg (fun announced => limits (beq_iff_eq.mp announced))]
      constructor
      · intro made
        cases made
        exact ⟨version, server, rfl, .inl ⟨limits, rfl⟩⟩
      · rintro ⟨_, _, answered, ⟨-, rfl⟩ | ⟨announced, -⟩⟩
        · cases answered
          rfl
        · cases answered
          exact absurd announced limits

theorem limits_newOpts (start : σ) : ∀ extensions : Negotiated,
    (SftpSession.newOpts.run.run (Peer.serve handler) (Peer.new start)).1 = .ok extensions →
      (SftpSession.newOpts.run.run (Peer.serve handler) (Peer.new start)).2.limits =
        extensions.limits.getD .default := by
  rw [run_newOpts]
  rcases handler.init 3 .empty start with ⟨err | version, server⟩
  · rintro extensions ⟨⟩
  · dsimp only
    split
    · split <;> rintro extensions ⟨⟩
      rfl
    · rintro extensions ⟨⟩
      rfl

end Client.Async

end

/-! ## Over the wire -/

namespace Client.Async

/-- Over the wire, `new_opts` ends; it makes a session just when the handler has greeted it, and
fails otherwise.  The session has the extensions that were announced, and keeps to the limits. -/
theorem session_made_iff (handler : Server.Handler σ ε) (start : σ)
    (fits : SftpSession.newOpts.run.Meets (SessionCall.Fits handler) (Peer.serve handler)
      (Peer.new start)) :
    ∃ result w, SftpSession.newOpts.run.attempt (Wire.serve handler) (Wire.new start) =
        some (result, w) ∧
      (∀ extensions, result = .ok extensions ↔ Greets handler start extensions) ∧
      ((∃ err, result = .error err) ↔ ∀ extensions, ¬ Greets handler start extensions) ∧
      ∀ extensions, result = .ok extensions →
        w.client.limits = extensions.limits.getD .default := by
  obtain ⟨w, ran, -, peer⟩ := program_over_wire handler SftpSession.newOpts.run (Wire.new start)
    (Wire.idle_new start) fits
  have at_start : (Wire.new start).peer = Peer.new start := rfl
  rw [at_start] at ran peer
  have made := newOpts_ok_iff handler start
  refine ⟨_, w, ran, made, ?_, fun extensions ok => ?_⟩
  · simp only [← made]
    rcases (SftpSession.newOpts.run.run (Peer.serve handler) (Peer.new start)).1 with err | found
    · exact ⟨fun _ _ same => (by cases same), fun _ => ⟨err, rfl⟩⟩
    · exact ⟨fun ⟨_, same⟩ => (by cases same), fun none => absurd rfl (none found)⟩
  · have limits := limits_newOpts handler start extensions ok
    rw [← peer] at limits
    exact limits

/-- A handler that counts its calls; it has limits and a file system. -/
def announcing : Server.Handler Nat Unit where
  into _ := .failure
  unimplemented _ := ()
  init _ _ calls := (.ok ⟨3, ⟨[(LIMITS, "1"), (STATVFS, "2")], by decide⟩⟩, calls + 1)
  extended id name _ calls :=
    let words : List UInt64 :=
      if name = LIMITS then [0, 10, 20, 1] else [1, 2, 3, 4, 5, 6, 7, 8, 9, 10, 11]
    (.ok (.extendedReply ⟨id, words.flatMap putU64⟩), calls + 1)

/-- One that announces limits, and does not tell them. -/
def reticent : Server.Handler Nat Unit :=
  { announcing with extended := fun _ _ _ calls => (.error (), calls + 1) }

theorem session_made_announcing :
    (∃ w, SftpSession.newOpts.run.attempt (Wire.serve announcing) (Wire.new 0) =
      some (.ok ⟨false, false, true, some ⟨some 10, some 20, some 1⟩⟩, w) ∧
        w.client.limits = ⟨some 10, some 20, some 1⟩) ∧
    ∃ err w, SftpSession.newOpts.run.attempt (Wire.serve reticent) (Wire.new 0) =
      some (.error err, w) := by
  constructor
  · obtain ⟨result, w, ran, made, -, limits⟩ := session_made_iff announcing 0 (by decide +kernel)
    have ok : result = .ok ⟨false, false, true, some ⟨some 10, some 20, some 1⟩⟩ :=
      (made _).mpr ⟨⟨3, ⟨[(LIMITS, "1"), (STATVFS, "2")], by decide⟩⟩, 1, rfl, .inr
        ⟨by decide, ⟨0, 10, 20, 1⟩, [], by decide +kernel, by decide +kernel⟩⟩
    exact ⟨w, ok ▸ ran, limits _ ok⟩
  · obtain ⟨result, w, ran, -, failed, -⟩ := session_made_iff reticent 0 (by decide +kernel)
    obtain ⟨err, rfl⟩ : ∃ err, result = .error err := by
      refine failed.mpr fun extensions greets => ?_
      obtain ⟨version, server, answered, ⟨silent, -⟩ | ⟨-, limits, rest, replied, -⟩⟩ := greets
      · cases answered
        exact silent (by decide)
      · cases replied
    exact ⟨err, w, ran⟩

/-- `fs_info` over the wire: the handler's method is called once if the extension was announced, and
not at all otherwise; the caller gets the words that an extended reply begins with. -/
theorem fsInfo_over_wire (handler : Server.Handler σ ε) (extensions : Negotiated) (path : String)
    (w : Wire σ) (idle : w.Idle) (initialised : w.client.version ≠ none)
    (fits : (SftpSession.fsInfo extensions path).run.Meets (SessionCall.Fits handler)
      (Peer.serve handler) w.peer) :
    ∃ result w', (SftpSession.fsInfo extensions path).run.attempt (Wire.serve handler) w =
        some (result, w') ∧ w'.Idle ∧
      if extensions.statvfs then
        let answer := handler.extended w.client.nextReqId STATVFS
          (lengthPrefixed (Utf8.utf8Bytes path)) w.server
        w'.server = answer.2 ∧ result ≠ .ok none ∧ ∀ info, result = .ok (some info) ↔ ∃ rest,
          answer.1 = .ok (.extendedReply ⟨w.client.nextReqId, info.words.flatMap putU64 ++ rest⟩)
      else w'.server = w.server ∧ result = .ok none := by
  obtain ⟨w', ran, idle', peer⟩ := program_over_wire handler _ w idle fits
  refine ⟨_, w', ran, idle', ?_⟩
  have serverIs : w'.server = w'.peer.server := rfl
  rw [serverIs, peer, SftpSession.fsInfo]
  by_cases announced : extensions.statvfs = true
  · have answers (info : Statvfs) := extendedResult_words_iff handler Statvfs.readsWords
      w.client.nextReqId (handler.extended w.client.nextReqId STATVFS
        (lengthPrefixed (Utf8.utf8Bytes path)) w.server) info
    have called := run_statvfs handler w.peer path initialised
    rw [if_pos announced, announced, if_neg (by simp), Program.run_except_bind, called]
    have same : (w.peer.nextReqId = w.client.nextReqId) ∧ w.peer.server = w.server := ⟨rfl, rfl⟩
    rw [same.1, same.2]
    simp only [← answers]
    rcases extendedResult Statvfs.deserialize (extendedAnswer handler w.client.nextReqId
      (handler.extended w.client.nextReqId STATVFS (lengthPrefixed (Utf8.utf8Bytes path))
        w.server)) with err | info
    · refine ⟨rfl, ?_, fun info => ⟨?_, ?_⟩⟩
      · rintro ⟨⟩
      · rintro ⟨⟩
      · rintro ⟨⟩
    · refine ⟨rfl, ?_, fun info' => ⟨?_, ?_⟩⟩
      · rintro ⟨⟩
      · rintro ⟨⟩
        rfl
      · rintro ⟨⟩
        rfl
  · rw [if_neg announced, Bool.eq_false_iff.mpr announced]
    exact ⟨rfl, rfl⟩

/-- A wire on which `init` has been called. -/
def greeted : Wire Nat := ⟨{ State.new .default with version := some 3 }, 1, 1⟩

theorem fsInfo_over_wire_greeted :
    ∃ w, (SftpSession.fsInfo ⟨false, false, true, none⟩ "/").run.attempt (Wire.serve announcing)
        greeted = some (.ok (some ⟨1, 2, 3, 4, 5, 6, 7, 8, 9, 10, 11⟩), w) ∧ w.server = 2 := by
  have idle : greeted.Idle := by constructor <;> intros <;> rfl
  obtain ⟨result, w, ran, -, server, -, info⟩ := fsInfo_over_wire announcing
    ⟨false, false, true, none⟩ "/" greeted idle (by decide) (by decide +kernel)
  have replied := (info ⟨1, 2, 3, 4, 5, 6, 7, 8, 9, 10, 11⟩).mpr ⟨[], by decide +kernel⟩
  exact ⟨w, by rw [ran, replied], server⟩

end Client.Async

end RusshSftp
