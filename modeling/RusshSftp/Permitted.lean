import RusshSftp.Observed

/-!
# What a session may ask for

What a session does stays within what the handler itself has announced: its extensions, and the
limits on the lengths of reads and writes.  A record of the requests that reach the handler shows
it, over the whole of a session and whatever its caller does.
-/

set_option autoImplicit false

namespace RusshSftp

open Client Framing ByteCodec

variable {σ ε : Type}

/-- The handler, with a record of the requests that have reached it. -/
def Server.Handler.recording (handler : Handler σ ε) : Handler (σ × List Request) ε :=
  handler.observed fun r _ record => record ++ [r]

/-! ## What the methods ask for -/

namespace Client.Async

/-- The requests that a session with these extensions may make. -/
def permits (extensions : Negotiated) : Request → Prop
  | .extended name _ => name = HARDLINK ∧ extensions.hardlink = true ∨
      name = FSYNC ∧ extensions.fsync = true ∨ name = STATVFS ∧ extensions.statvfs = true
  | _ => True

def permitted (extensions : Negotiated) : SessionCall → Prop
  | .request r => permits extensions r
  | _ => False

section
variable {extensions : Negotiated} {α β : Type}

theorem only_ofResult (result : SftpResult α) :
    (ofResult result).run.Only (permitted extensions) := trivial

theorem only_firstName (name : Name) :
    (SftpSession.firstName name).run.Only (permitted extensions) := by
  rw [SftpSession.firstName]
  split <;> exact trivial

theorem permits_plain {r : Request} (plain : r.isExtended = false) : permits extensions r := by
  cases r <;> first | exact trivial | cases plain

/-- A request, and what is made of its reply. -/
theorem only_request_then (r : Request) (permit : permits extensions r) {f : r.Reply → Async β}
    (rest : ∀ reply, (f reply).run.Only (permitted extensions)) :
    (RawSftpSession.request r >>= f).run.Only (permitted extensions) :=
  Program.Only.except_bind (Program.Only.perform permit) rest

theorem only_plain_then (r : Request) (plain : r.isExtended = false) {f : r.Reply → Async β}
    (rest : ∀ reply, (f reply).run.Only (permitted extensions)) :
    (RawSftpSession.request r >>= f).run.Only (permitted extensions) :=
  only_request_then r (permits_plain plain) rest

theorem only_extended_then {name : String} {data : Bytes} (permit : permits extensions
    (.extended name data)) {f : Packet → Async β}
    (rest : ∀ reply, (f reply).run.Only (permitted extensions)) :
    (RawSftpSession.extended name data >>= f).run.Only (permitted extensions) :=
  only_request_then (.extended name data) permit rest

theorem only_hardlink (announced : extensions.hardlink = true) (oldpath newpath : String) :
    (RawSftpSession.hardlink oldpath newpath).run.Only (permitted extensions) :=
  (only_ofResult _).except_bind fun _ =>
    only_extended_then (Or.inl ⟨rfl, announced⟩) fun _ => only_ofResult _

theorem only_fsync (announced : extensions.fsync = true) (handle : String) :
    (RawSftpSession.fsync handle).run.Only (permitted extensions) :=
  (only_ofResult _).except_bind fun _ =>
    only_extended_then (Or.inr (.inl ⟨rfl, announced⟩)) fun _ => only_ofResult _

theorem only_statvfs (announced : extensions.statvfs = true) (path : String) :
    (RawSftpSession.statvfs path).run.Only (permitted extensions) := by
  refine (only_ofResult _).except_bind fun _ =>
    only_extended_then (Or.inr (.inr ⟨rfl, announced⟩)) fun packet => ?_
  cases packet with
  | extendedReply reply => exact only_ofResult _
  | status status =>
      dsimp only
      split <;> exact trivial
  | _ => exact trivial

/-- No method makes a request that the extensions do not permit. -/
theorem Method.only (m : Method) : (m.body extensions).run.Only (permitted extensions) := by
  cases m with
  | openWithFlagsAndAttributes filename flags attributes =>
      exact only_plain_then (.open filename flags attributes) rfl fun _ => trivial
  | canonicalize path => exact only_plain_then (.realpath path) rfl only_firstName
  | createDir path => exact only_plain_then (.mkdir path .empty) rfl fun _ => trivial
  | readLink path => exact only_plain_then (.readlink path) rfl only_firstName
  | removeDir path => exact only_plain_then (.rmdir path) rfl fun _ => trivial
  | removeFile filename => exact only_plain_then (.remove filename) rfl fun _ => trivial
  | rename oldpath newpath => exact only_plain_then (.rename oldpath newpath) rfl fun _ => trivial
  | symlink path target => exact only_plain_then (.symlink path target) rfl fun _ => trivial
  | metadata path => exact only_plain_then (.stat path) rfl fun _ => trivial
  | setMetadata path attributes =>
      exact only_plain_then (.setstat path attributes) rfl fun _ => trivial
  | symlinkMetadata path => exact only_plain_then (.lstat path) rfl fun _ => trivial
  | fileMetadata handle => exact only_plain_then (.fstat handle) rfl fun _ => trivial
  | fileSetMetadata handle attributes =>
      exact only_plain_then (.fsetstat handle attributes) rfl fun _ => trivial
  | tryExists path =>
      refine Program.Only.bind (only_plain_then (.stat path) rfl fun _ => trivial) ?_
      rintro (err | attrs)
      · cases err with
        | status status =>
            dsimp only
            split <;> exact trivial
        | _ => exact trivial
      · exact trivial
  | hardlink oldpath newpath =>
      show (SftpSession.hardlink extensions oldpath newpath).run.Only _
      rw [SftpSession.hardlink]
      split
      · exact trivial
      · rename_i announced
        refine (only_hardlink ?_ oldpath newpath).except_bind fun _ => trivial
        simpa using announced
  | fsInfo path =>
      show (SftpSession.fsInfo extensions path).run.Only _
      rw [SftpSession.fsInfo]
      split
      · exact trivial
      · rename_i announced
        refine (only_statvfs ?_ path).except_bind fun _ => trivial
        simpa using announced
  | fileSyncAll handle =>
      show (File.syncAll (.new handle extensions.forFile)).run.Only _
      rw [File.syncAll]
      split
      · exact trivial
      · rename_i announced
        refine (only_fsync ?_ handle).except_bind fun _ => trivial
        simpa [File.new, Negotiated.forFile] using announced
  | plain r plain => exact Program.Only.perform (permits_plain plain)

end

end Client.Async

/-! ## What reaches the handler -/

/-- A request that no limit on lengths forbids. -/
def Client.Request.Within (limits : Limits) : Request → Prop
  | .read _ _ len => ∀ most, limits.readLen = some most → len.toUInt64 ≤ most
  | .write _ _ data => ∀ most, limits.writeLen = some most → data.length ≤ most.toNat
  | _ => True

theorem Client.Request.within_of_free {r : Request} {limits : Limits} {handles : UInt64}
    (free : r.operation.limited limits handles = none) : r.normalise.Within limits := by
  cases r with
  | read handle offset len =>
      intro most limit
      by_contra longer
      have refused : (Request.read handle offset len).operation.limited limits handles =
          some (.limited "read limit reached") := by
        simp only [operation, Operation.read, exceeds, limit, Option.any_some]
        rw [if_pos (decide_eq_true (UInt64.not_le.mp longer))]
      rw [refused] at free
      cases free
  | write handle offset data =>
      intro most limit
      by_contra longer
      have refused : (Request.write handle offset data).operation.limited limits handles =
          some (.limited "write limit reached") := by
        simp only [operation, Operation.write, exceeds, limit, Option.any_some]
        rw [if_pos (decide_eq_true (Nat.not_le.mp longer))]
      rw [refused] at free
      cases free
  | _ => exact trivial

theorem Peer.exchange_limits (handler : Server.Handler σ ε) (job : Job) (p : Peer σ) :
    (p.exchange handler job).2.limits = p.limits := by
  cases limited : job.limited p.limits p.handles with
  | some err => rw [exchange_limited limited]
  | none =>
      simp only [exchange, limited, receive]
      split <;> rfl

namespace Client.Async

/-- What a session adds to the record: it is permitted, and within the limits. -/
structure Adds (extensions : Negotiated) (record : List Request) (p : Peer (σ × List Request)) :
    Prop where
  limits : p.limits = extensions.limits.getD .default
  added : ∃ added, p.server.2 = record ++ added ∧
    ∀ r ∈ added, permits extensions r ∧ r.Within (extensions.limits.getD .default)

theorem permits_normalise {extensions : Negotiated} {r : Request} (permit : permits extensions r) :
    permits extensions r.normalise := by
  cases r <;> exact permit

theorem adds_serve (handler : Server.Handler σ ε) {extensions : Negotiated} {record : List Request}
    {c : SessionCall} {p : Peer (σ × List Request)} (permit : permitted extensions c)
    (adds : Adds extensions record p) : Adds extensions record (p.serve handler.recording c).2 := by
  obtain ⟨added, soFar, each⟩ := adds.added
  cases c with
  | init => cases permit
  | setLimits limits => cases permit
  | request r =>
      have kept := (Peer.exchange_limits handler.recording (.request r) p).trans adds.limits
      have noted := (Peer.serve_observed handler (fun r _ record => record ++ [r]) (.request r) p).2
      rw [SessionCall.noted, soFar] at noted
      split at noted
      · rename_i free
        refine ⟨kept, added ++ [r.normalise], noted.trans (List.append_assoc record added _), ?_⟩
        intro r' member
        rcases List.mem_append.mp member with before | now
        · exact each r' before
        · rw [List.mem_singleton] at now
          subst now
          exact ⟨permits_normalise permit, adds.limits ▸ Request.within_of_free free⟩
      · exact ⟨kept, added, noted, each⟩

theorem adds_run {α : Type} (handler : Server.Handler σ ε) {extensions : Negotiated}
    {record : List Request} {program : Program SessionCall SessionCall.Reply α}
    (only : program.Only (permitted extensions)) {p : Peer (σ × List Request)}
    (adds : Adds extensions record p) :
    Adds extensions record (program.run (Peer.serve handler.recording) p).2 :=
  Program.keeps (P := fun c _ => permitted extensions c)
    (fun _ _ permit => adds_serve handler permit) program
    (only.meets (fun _ _ permit => permit) p) adds

/-- What is on record after `new_opts`, and what the session then knows. -/
structure Met (handler : Server.Handler σ ε) (start : σ) (result : SftpResult Negotiated)
    (p : Peer (σ × List Request)) : Prop where
  record : p.server.2 = [] ∨ p.server.2 = [.extended LIMITS []] ∧
    ∃ version, (handler.init 3 .empty start).1 = .ok version ∧
      version.extensions.get LIMITS = some "1"
  limits : ∀ extensions, result = .ok extensions → p.limits = extensions.limits.getD .default
  announced : ∀ extensions, result = .ok extensions →
    ∃ version, (handler.init 3 .empty start).1 = .ok version ∧
      extensions = { SftpSession.announced version with limits := extensions.limits }

theorem met_newOpts (handler : Server.Handler σ ε) (start : σ) :
    Met handler start (SftpSession.newOpts.run.run (Peer.serve handler.recording)
        (Peer.new (start, []))).1
      (SftpSession.newOpts.run.run (Peer.serve handler.recording) (Peer.new (start, []))).2 := by
  rw [run_newOpts]
  have recorded : handler.recording.init 3 .empty (start, []) =
      ((handler.init 3 .empty start).1, ((handler.init 3 .empty start).2, [])) := rfl
  rw [recorded]
  rcases answered : handler.init 3 .empty start with ⟨err | version, server⟩
  · exact ⟨.inl rfl, fun _ made => (by cases made), fun _ made => (by cases made)⟩
  · have found : (handler.init 3 .empty start).1 = .ok version := congrArg Prod.fst answered
    dsimp only
    split
    · rename_i limits
      have record : [Request.extended LIMITS []] = [.extended LIMITS []] ∧
          ∃ version, (handler.init 3 .empty start).1 = .ok version ∧
            version.extensions.get LIMITS = some "1" := ⟨rfl, version, found, beq_iff_eq.mp limits⟩
      split
      · refine ⟨.inr record, ?_, ?_⟩
        · rintro extensions ⟨⟩
          rfl
        · rintro extensions ⟨⟩
          exact ⟨version, found, rfl⟩
      · exact ⟨.inr record, fun _ made => (by cases made), fun _ made => (by cases made)⟩
    · refine ⟨.inl rfl, ?_, ?_⟩
      · rintro extensions ⟨⟩
        rfl
      · rintro extensions ⟨⟩
        exact ⟨version, found, rfl⟩

theorem run_lift {α : Type} {serve : (c : SessionCall) → σ → c.Reply × σ}
    (program : Program SessionCall SessionCall.Reply α) (s : σ) :
    (ExceptT.lift program : Async α).run.run serve s =
      (.ok (program.run serve s).1, (program.run serve s).2) := by
  rw [ExceptT.run_lift, map_eq_pure_bind, Program.run_bind]
  rfl

theorem run_converse {α : Type} (handler : Server.Handler σ ε) (caller : Negotiated → Caller α)
    (p : Peer σ) :
    (converse caller).run.run (Peer.serve handler) p =
      match SftpSession.newOpts.run.run (Peer.serve handler) p with
      | (.ok extensions, p) =>
          let last := ((caller extensions).lower fun m => (m.body extensions).run).run
            (Peer.serve handler) p
          (.ok last.1, last.2)
      | (.error err, p) => (.error err, p) := by
  rw [converse, Program.run_except_bind]
  rcases SftpSession.newOpts.run.run (Peer.serve handler) p with ⟨err | extensions, p'⟩
  · rfl
  · exact run_lift _ _

/-- The record of a whole session: that of `new_opts`, and what the extensions permit. -/
theorem record_converse {α : Type} (handler : Server.Handler σ ε) (start : σ)
    (caller : Negotiated → Caller α) :
    ∃ result p, SftpSession.newOpts.run.run (Peer.serve handler.recording) (Peer.new (start, [])) =
        (result, p) ∧ Met handler start result p ∧
      ∃ added, ((converse caller).run.run (Peer.serve handler.recording)
          (Peer.new (start, []))).2.server.2 = p.server.2 ++ added ∧
        ∀ r ∈ added, ∃ extensions, result = .ok extensions ∧ permits extensions r ∧
          r.Within (extensions.limits.getD .default) := by
  have met := met_newOpts handler start
  rw [run_converse]
  rcases made : SftpSession.newOpts.run.run (Peer.serve handler.recording)
    (Peer.new (start, [])) with ⟨err | extensions, p⟩ <;> rw [made] at met
  · refine ⟨.error err, p, rfl, met, [], (List.append_nil _).symm, ?_⟩
    intro r member
    cases member
  · have first : Adds extensions p.server.2 p :=
      ⟨met.limits extensions rfl, [], (List.append_nil _).symm, fun r member => by cases member⟩
    have only : ((caller extensions).lower fun m => (m.body extensions).run).Only
        (permitted extensions) := Program.Only.lower fun m => m.only
    obtain ⟨added, whole, each⟩ := (adds_run handler only first).added
    exact ⟨.ok extensions, p, rfl, met, added, whole,
      fun r member => ⟨extensions, rfl, each r member⟩⟩

/-- The extensions that a session may use, each with the version that it asks for. -/
def known : List (String × String) :=
  [(LIMITS, "1"), (HARDLINK, "1"), (FSYNC, "1"), (STATVFS, "2")]

/-- A request is one that the handler's reply to `init` has announced, if it is an extended one. -/
def Announced (handler : Server.Handler σ ε) (start : σ) : Request → Prop
  | .extended name _ => ∃ version value, (handler.init 3 .empty start).1 = .ok version ∧
      version.extensions.get name = some value ∧ (name, value) ∈ known
  | _ => True

theorem Met.announces {handler : Server.Handler σ ε} {start : σ} {result : SftpResult Negotiated}
    {p : Peer (σ × List Request)} (met : Met handler start result p) {extensions : Negotiated}
    (made : result = .ok extensions) {r : Request} (permit : permits extensions r) :
    Announced handler start r ∧ ∀ data, r ≠ .extended LIMITS data := by
  obtain ⟨version, found, same⟩ := met.announced extensions made
  cases r with
  | extended name data =>
      rcases permit with ⟨rfl, announced⟩ | ⟨rfl, announced⟩ | ⟨rfl, announced⟩ <;>
        rw [same] at announced <;>
        exact ⟨⟨version, _, found, beq_iff_eq.mp announced, by simp [known]⟩,
          fun _ limits => absurd (Request.extended.inj limits).1 (by decide)⟩
  | _ => exact ⟨trivial, fun _ limits => by cases limits⟩

/-- Whatever a caller does with a session, the handler gets no extended request but those that its
own reply to `init` has announced, and is asked for the limits at most once, before all else. -/
theorem extensions_respected {α : Type} (handler : Server.Handler σ ε) (start : σ)
    (caller : Negotiated → Caller α)
    (fits : (converse caller).run.Meets (SessionCall.Fits handler.recording)
      (Peer.serve handler.recording) (Peer.new (start, []))) :
    ∃ result w, (converse caller).run.attempt (Wire.serve handler.recording)
        (Wire.new (start, [])) = some (result, w) ∧
      (∀ r ∈ w.server.2, Announced handler start r) ∧
      ∀ data, .extended LIMITS data ∉ w.server.2.tail := by
  obtain ⟨w, ran, -, peer⟩ := program_over_wire handler.recording _ (Wire.new (start, []))
    (Wire.idle_new _) fits
  obtain ⟨result, p, -, met, added, whole, each⟩ := record_converse handler start caller
  have record : w.server.2 = p.server.2 ++ added :=
    (congrArg (fun p : Peer (σ × List Request) => p.server.2) peer).trans whole
  have permitted : ∀ r ∈ added, Announced handler start r ∧ ∀ data, r ≠ .extended LIMITS data := by
    intro r member
    obtain ⟨extensions, made, permit, -⟩ := each r member
    exact met.announces made permit
  refine ⟨_, w, ran, ?_, ?_⟩
  · intro r member
    rw [record] at member
    rcases List.mem_append.mp member with handshake | later
    · rcases met.record with none | ⟨one, version, found, limits⟩
      · rw [none] at handshake
        cases handshake
      · rw [one, List.mem_singleton] at handshake
        subst handshake
        exact ⟨version, "1", found, limits, by simp [known]⟩
    · exact (permitted r later).1
  · intro data member
    rw [record] at member
    rcases met.record with none | ⟨one, -⟩
    · rw [none, List.nil_append] at member
      exact (permitted _ (List.mem_of_mem_tail member)).2 data rfl
    · rw [one, List.singleton_append, List.tail_cons] at member
      exact (permitted _ member).2 data rfl

/-- A caller that asks for the file system, and for a long read. -/
def asking (_ : Negotiated) : Caller (SftpResult Data) := do
  let _ ← Program.perform (Method.fsInfo "/")
  Program.perform (Method.plain (.read "h" 0 100) rfl)

theorem extensions_respected_asking :
    ∃ result w, (converse asking).run.attempt (Wire.serve announcing.recording)
        (Wire.new (0, [])) = some (result, w) ∧
      (∀ r ∈ w.server.2, Announced announcing 0 r) ∧
      ∀ data, .extended LIMITS data ∉ w.server.2.tail :=
  extensions_respected announcing 0 asking (by decide +kernel)

/-- Whatever a caller does with a session, the handler gets no READ and no WRITE that is longer
than the limits that it has told the session itself. -/
theorem limits_respected {α : Type} (handler : Server.Handler σ ε) (start : σ)
    (caller : Negotiated → Caller α)
    (fits : (converse caller).run.Meets (SessionCall.Fits handler.recording)
      (Peer.serve handler.recording) (Peer.new (start, []))) (version : Version) (server : σ)
    (answered : handler.init 3 .empty start = (.ok version, server))
    (announced : version.extensions.get LIMITS = some "1") (limits : LimitsExtension) (rest : Bytes)
    (replied : (handler.extended 1 LIMITS [] server).1 =
      .ok (.extendedReply ⟨1, limits.words.flatMap putU64 ++ rest⟩)) :
    ∃ result w, (converse caller).run.attempt (Wire.serve handler.recording)
        (Wire.new (start, [])) = some (result, w) ∧
      ∀ r ∈ w.server.2, r.Within (Limits.ofExtension limits) := by
  obtain ⟨w, ran, -, peer⟩ := program_over_wire handler.recording _ (Wire.new (start, []))
    (Wire.idle_new _) fits
  obtain ⟨result, p, made, met, added, whole, each⟩ := record_converse handler start caller
  have record : w.server.2 = p.server.2 ++ added :=
    (congrArg (fun p : Peer (σ × List Request) => p.server.2) peer).trans whole
  have known : (SftpSession.newOpts.run.run (Peer.serve handler.recording)
      (Peer.new (start, []))).1 = .ok { SftpSession.announced version with
        limits := some (Limits.ofExtension limits) } := by
    refine (newOpts_ok_iff handler.recording (start, []) _).mpr
      ⟨version, (server, []), ?_, .inr ⟨announced, limits, rest, replied, rfl⟩⟩
    show ((handler.init 3 .empty start).1, ((handler.init 3 .empty start).2, ([] : List Request))) =
      _
    rw [answered]
  refine ⟨_, w, ran, ?_⟩
  intro r member
  rw [record] at member
  rcases List.mem_append.mp member with handshake | later
  · rcases met.record with none | ⟨one, -⟩
    · rw [none] at handshake
      cases handshake
    · rw [one, List.mem_singleton] at handshake
      subst handshake
      exact trivial
  · obtain ⟨extensions, same, -, within⟩ := each r later
    rw [made, same] at known
    cases known
    exact within

theorem limits_respected_asking :
    ∃ result w, (converse asking).run.attempt (Wire.serve announcing.recording)
        (Wire.new (0, [])) = some (result, w) ∧
      ∀ r ∈ w.server.2, r.Within ⟨some 10, some 20, some 1⟩ :=
  limits_respected announcing 0 asking (by decide +kernel)
    ⟨3, ⟨[(LIMITS, "1"), (STATVFS, "2")], by decide⟩⟩ 1 rfl (by decide) ⟨0, 10, 20, 1⟩ []
    (by decide +kernel)

end Client.Async

end RusshSftp
