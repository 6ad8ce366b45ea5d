import RusshSftp.Lib.FileStore
import RusshSftp.Observed

/-!
# Handlers that store files and folders

A handler may keep files and folders in any way.  What it tells its clients is a `Storage`: it
answers OPEN, READ, WRITE, OPENDIR, READDIR and CLOSE as that storage says, with short reads and
batches of any size.  What a session gets from such a handler is said here for each call.
-/

set_option autoImplicit false

namespace RusshSftp

open Client Framing ByteCodec

variable {σ ε : Type}

/-! ## Handlers that store files -/

abbrev Storage := FileStore String String UInt8 File

/-- What the flags of an OPEN ask for.  Nothing is said about files that are opened to append. -/
def OpenFlags.mode (flags : OpenFlags) : Option FileStore.Mode :=
  let asks (flag : OpenFlags) := flags.bits &&& flag.bits != 0
  if asks append then none
  else some ⟨asks read, asks write, asks create, asks exclude, asks truncate⟩

theorem OpenFlags.mode_read : OpenFlags.read.mode = some ⟨true, false, false, false, false⟩ := rfl

/-- The handler answers as a storage says that its state stands for. -/
structure Server.Handler.Stores (handler : Server.Handler σ ε) (store : σ → Storage) : Prop where
  opens : ∀ id path flags mode content s, OpenFlags.mode flags = some mode →
    FileStore.opened mode ((store s).files path) = some content →
    ∃ h s', handler.open id path flags .empty s = (.ok ⟨id, h⟩, s') ∧ (store s).handles h = none ∧
      store s' = ((store s).setFile path content).hold h (.file path mode)
  reads : ∀ id h offset len path mode content s, (store s).handles h = some (.file path mode) →
    mode.reads = true → (store s).files path = some content → len ≠ 0 →
    ∃ answer s', handler.read id h offset len s = (answer, s') ∧ store s' = store s ∧
      if offset.toNat < content.length then
        ∃ data, answer = .ok ⟨id, data⟩ ∧ data ≠ [] ∧ data.length ≤ len.toNat ∧
          data <+: content.drop offset.toNat
      else ∃ err, answer = .error err ∧ handler.into err = .eof
  writes : ∀ id h offset data path mode content s, (store s).handles h = some (.file path mode) →
    mode.writes = true → (store s).files path = some content →
    ∃ status s', handler.write id h offset data s = (.ok status, s') ∧ status.id = id ∧
      status.statusCode = .ok ∧
      store s' = (store s).setFile path (LocalFile.writeAt 0 content offset.toNat data)
  opensFolder : ∀ id path entries s, (store s).folders path = some entries →
    ∃ h s', handler.opendir id path s = (.ok ⟨id, h⟩, s') ∧ (store s).handles h = none ∧
      store s' = (store s).hold h (.folder entries)
  lists : ∀ id h rest s, (store s).handles h = some (.folder rest) → rest ≠ [] →
    ∃ batch left s', handler.readdir id h s = (.ok ⟨id, batch⟩, s') ∧ batch ≠ [] ∧
      rest = batch ++ left ∧ store s' = (store s).hold h (.folder left)
  listed : ∀ id h s, (store s).handles h = some (.folder []) →
    ∃ err s', handler.readdir id h s = (.error err, s') ∧ handler.into err = .eof ∧
      store s' = store s
  closes : ∀ id h held s, (store s).handles h = some held →
    ∃ status s', handler.close id h s = (.ok status, s') ∧ status.id = id ∧
      status.statusCode = .ok ∧ store s' = (store s).close h

/-- A handler that is observed still stores what it has stored. -/
theorem Server.Handler.Stores.observed {τ : Type} {handler : Server.Handler σ ε}
    {store : σ → Storage} (stores : handler.Stores store)
    (note : (r : Request) → Except ε r.Reply → τ → τ) :
    (handler.observed note).Stores fun s => store s.1 where
  opens id path flags mode content s asks opened := by
    obtain ⟨h, s', answered, fresh, stored⟩ :=
      stores.opens id path flags mode content s.1 asks opened
    exact ⟨h, _, Handler.noting_eq answered, fresh, stored⟩
  reads id h offset len path mode content s held readable there asks := by
    obtain ⟨answer, s', answered, kept, gives⟩ :=
      stores.reads id h offset len path mode content s.1 held readable there asks
    exact ⟨answer, _, Handler.noting_eq answered, kept, gives⟩
  writes id h offset data path mode content s held writable there := by
    obtain ⟨status, s', answered, own, ok, stored⟩ :=
      stores.writes id h offset data path mode content s.1 held writable there
    exact ⟨status, _, Handler.noting_eq answered, own, ok, stored⟩
  opensFolder id path entries s there := by
    obtain ⟨h, s', answered, fresh, stored⟩ := stores.opensFolder id path entries s.1 there
    exact ⟨h, _, Handler.noting_eq answered, fresh, stored⟩
  lists id h rest s held some := by
    obtain ⟨batch, left, s', answered, nonempty, split, stored⟩ :=
      stores.lists id h rest s.1 held some
    exact ⟨batch, left, _, Handler.noting_eq answered, nonempty, split, stored⟩
  listed id h s held := by
    obtain ⟨err, s', answered, eof, kept⟩ := stores.listed id h s.1 held
    exact ⟨err, _, Handler.noting_eq answered, eof, kept⟩
  closes id h held s isHeld := by
    obtain ⟨status, s', answered, own, ok, stored⟩ := stores.closes id h held s.1 isHeld
    exact ⟨status, _, Handler.noting_eq answered, own, ok, stored⟩

/-- A session with these limits and at most so many open handles, on a server with this storage. -/
structure Peer.Holds (store : σ → Storage) (limits : Limits) (now : Storage) (most : Nat)
    (p : Peer σ) : Prop where
  initialised : p.version ≠ none
  limits : p.limits = limits
  store : store p.server = now
  handles : p.handles.toNat ≤ most

/-! ## One call -/

namespace Peer.Holds

variable {handler : Server.Handler σ ε} {store : σ → Storage} {limits : Limits} {now : Storage}
variable {most : Nat} {p : Peer σ}

theorem room (holds : p.Holds store limits now most)
    (fits : ∀ l, limits.openHandles = some l → most < l.toNat) (message : String) :
    exceeds p.limits.openHandles message (fun h => p.handles ≥ h) = none := by
  refine exceeds_eq_none fun l isLimit => ?_
  rw [holds.limits] at isLimit
  have below := fits l isLimit
  have few := holds.handles
  rw [decide_eq_false_iff_not, ge_iff_le, UInt64.le_iff_toNat_le]
  omega

theorem counted (holds : p.Holds store limits now most) (handle : Handle) :
    (countHandle (.handle handle) p.handles).toNat ≤ most + 1 := by
  have few := holds.handles
  rw [countHandle, UInt64.toNat_add]
  exact Nat.le_trans (Nat.mod_le _ _) (Nat.add_le_add_right few 1)

theorem uncounted (holds : p.Holds store limits now most) (reply : Packet) :
    (uncountHandle reply p.handles).toNat ≤ most := by
  have few := holds.handles
  unfold uncountHandle
  split
  · split
    · split
      · rename_i positive
        have above : 0 < p.handles.toNat := UInt64.lt_iff_toNat_lt.mp positive
        have one : (1 : UInt64) ≤ p.handles := UInt64.le_iff_toNat_le.mpr above
        rw [UInt64.toNat_sub_of_le _ _ one]
        omega
      · exact few
    · exact few
  · exact few

/-- A call that the session lets pass and the handler answers under its id. -/
theorem call (holds : p.Holds store limits now most) {now' : Storage} {most' : Nat} {server : σ}
    {r : Request} {result : Except ε r.normalise.Reply}
    (answered : r.normalise.method handler p.nextReqId p.server = (result, server))
    (free : r.operation.limited p.limits p.handles = none) {reply : Packet}
    (wrapped : Server.intoWrap p.nextReqId handler r.normalise.toPacket (result, server) =
      (reply, server))
    (own : reply.replyKey? = some (some p.nextReqId)) (stored : store server = now')
    (few : ((Job.request r).counted (.ok reply.normalise) p.handles).toNat ≤ most') :
    (p.serve handler (.request r)).1 = r.returned (.ok reply.normalise) ∧
      (p.serve handler (.request r)).2.Holds store limits now' most' := by
  rw [← answered] at wrapped
  rw [Peer.serve_own handler holds.initialised free wrapped own]
  exact ⟨rfl, holds.initialised, holds.limits, stored, few⟩

section
variable (stores : handler.Stores store) (holds : p.Holds store limits now most)
include stores holds

theorem opens {path : String} {flags : OpenFlags} {mode : FileStore.Mode} {content : Bytes}
    (asks : flags.mode = some mode)
    (opened : FileStore.opened mode (now.files path) = some content)
    (fits : ∀ l, limits.openHandles = some l → most < l.toNat) :
    ∃ h, (p.serve handler (.request (.open path flags .empty))).1 =
        (Except.ok ⟨p.nextReqId, h⟩ : SftpResult Handle) ∧ now.handles h = none ∧
      (p.serve handler (.request (.open path flags .empty))).2.Holds store limits
        ((now.setFile path content).hold h (.file path mode)) (most + 1) := by
  have same := holds.store
  subst same
  obtain ⟨h, s', answered, fresh, stored⟩ :=
    stores.opens p.nextReqId path flags mode content p.server asks opened
  obtain ⟨result, after⟩ := holds.call (r := .open path flags .empty) answered (holds.room fits _)
    rfl rfl stored (holds.counted ⟨p.nextReqId, h⟩)
  exact ⟨h, result, fresh, after⟩

/-- A READ within the limits gives some of what is behind its offset, or the end. -/
theorem reads {h path : String} {mode : FileStore.Mode} {content : Bytes} {offset : UInt64}
    {len : UInt32} (held : now.handles h = some (.file path mode)) (readable : mode.reads = true)
    (there : now.files path = some content) (asks : len ≠ 0)
    (free : (Request.read h offset len).operation.limited limits 0 = none) :
    (p.serve handler (.request (.read h offset len))).2.Holds store limits now most ∧
      if offset.toNat < content.length then
        ∃ data, (p.serve handler (.request (.read h offset len))).1 =
            (Except.ok ⟨p.nextReqId, data⟩ : SftpResult Data) ∧
          data ≠ [] ∧ data.length ≤ len.toNat ∧ data <+: content.drop offset.toNat
      else ∃ status, (p.serve handler (.request (.read h offset len))).1 =
          (Except.error (.status status) : SftpResult Data) ∧ status.statusCode = .eof := by
  have same := holds.store
  subst same
  obtain ⟨answer, s', answered, kept, gives⟩ :=
    stores.reads p.nextReqId h offset len path mode content p.server held readable there asks
  have unlimited : (Request.read h offset len).operation.limited p.limits p.handles = none := by
    rw [holds.limits]
    exact free
  by_cases before : offset.toNat < content.length
  · rw [if_pos before] at gives ⊢
    obtain ⟨data, rfl, nonempty, short, front⟩ := gives
    obtain ⟨result, after⟩ := holds.call (r := .read h offset len) answered unlimited rfl rfl kept
      holds.handles
    exact ⟨after, data, result, nonempty, short, front⟩
  · rw [if_neg before] at gives ⊢
    obtain ⟨err, rfl, eof⟩ := gives
    obtain ⟨result, after⟩ := holds.call (r := .read h offset len) answered unlimited rfl rfl kept
      holds.handles
    exact ⟨after, _, result, eof⟩

theorem writes {h path : String} {mode : FileStore.Mode} {content data : Bytes} {offset : UInt64}
    (held : now.handles h = some (.file path mode)) (writable : mode.writes = true)
    (there : now.files path = some content)
    (free : (Request.write h offset data).operation.limited limits 0 = none) :
    ∃ status, (p.serve handler (.request (.write h offset data))).1 =
        (Except.ok status : SftpResult Status) ∧
      (p.serve handler (.request (.write h offset data))).2.Holds store limits
        (now.setFile path (LocalFile.writeAt 0 content offset.toNat data)) most := by
  have same := holds.store
  subst same
  obtain ⟨status, s', answered, own, ok, stored⟩ :=
    stores.writes p.nextReqId h offset data path mode content p.server held writable there
  have unlimited : (Request.write h offset data).operation.limited p.limits p.handles = none := by
    rw [holds.limits]
    exact free
  obtain ⟨result, after⟩ := holds.call (r := .write h offset data) answered unlimited rfl
    (congrArg (fun id => some (some id)) own) stored holds.handles
  exact ⟨status, result.trans (if_pos ok), after⟩

theorem closes {h : String} {held : FileStore.Held String File}
    (isHeld : now.handles h = some held) :
    ∃ status, (p.serve handler (.request (.close h))).1 =
        (Except.ok status : SftpResult Status) ∧
      (p.serve handler (.request (.close h))).2.Holds store limits (now.close h) most := by
  have same := holds.store
  subst same
  obtain ⟨status, s', answered, own, ok, stored⟩ :=
    stores.closes p.nextReqId h held p.server isHeld
  obtain ⟨result, after⟩ := holds.call (r := .close h) answered rfl rfl
    (congrArg (fun id => some (some id)) own) stored (holds.uncounted _)
  exact ⟨status, result.trans (if_pos ok), after⟩

theorem opensFolder {path : String} {entries : List File}
    (there : now.folders path = some entries)
    (fits : ∀ l, limits.openHandles = some l → most < l.toNat) :
    ∃ h, (handler.opendir p.nextReqId path p.server).1 = .ok ⟨p.nextReqId, h⟩ ∧
      (p.serve handler (.request (.opendir path))).1 =
        (Except.ok ⟨p.nextReqId, h⟩ : SftpResult Handle) ∧ now.handles h = none ∧
      (p.serve handler (.request (.opendir path))).2.Holds store limits
        (now.hold h (.folder entries)) (most + 1) := by
  have same := holds.store
  subst same
  obtain ⟨h, s', answered, fresh, stored⟩ :=
    stores.opensFolder p.nextReqId path entries p.server there
  obtain ⟨result, after⟩ := holds.call (r := .opendir path) answered (holds.room fits _) rfl rfl
    stored (holds.counted ⟨p.nextReqId, h⟩)
  exact ⟨h, congrArg Prod.fst answered, result, fresh, after⟩

/-- The entries come as they are on the wire. -/
theorem lists {h : String} {rest : List File} (held : now.handles h = some (.folder rest))
    (some : rest ≠ []) :
    ∃ batch left, batch ≠ [] ∧ rest = batch ++ left ∧
      (handler.readdir p.nextReqId h p.server).1 = .ok ⟨p.nextReqId, batch⟩ ∧
      (p.serve handler (.request (.readdir h))).1 =
        (Except.ok ⟨p.nextReqId, batch.map File.normalise⟩ : SftpResult Name) ∧
      (p.serve handler (.request (.readdir h))).2.Holds store limits
        (now.hold h (.folder left)) most := by
  have same := holds.store
  subst same
  obtain ⟨batch, left, s', answered, nonempty, split, stored⟩ :=
    stores.lists p.nextReqId h rest p.server held some
  obtain ⟨result, after⟩ := holds.call (r := .readdir h) answered rfl rfl rfl stored holds.handles
  exact ⟨batch, left, nonempty, split, congrArg Prod.fst answered, result, after⟩

theorem listed {h : String} (held : now.handles h = some (.folder [])) :
    ∃ err status, (handler.readdir p.nextReqId h p.server).1 = .error err ∧
      handler.into err = .eof ∧
      (p.serve handler (.request (.readdir h))).1 =
        (Except.error (.status status) : SftpResult Name) ∧ status.statusCode = .eof ∧
      (p.serve handler (.request (.readdir h))).2.Holds store limits now most := by
  have same := holds.store
  subst same
  obtain ⟨err, s', answered, eof, kept⟩ := stores.listed p.nextReqId h p.server held
  obtain ⟨result, after⟩ := holds.call (r := .readdir h) answered rfl rfl rfl kept holds.handles
  exact ⟨err, _, congrArg Prod.fst answered, eof, result, eof, after⟩

end

end Peer.Holds

/-! ## A server in memory -/

/-- Files and folders in memory, with the number of the next handle. -/
structure Memory where
  stored : Storage
  next : Nat
  fresh : ∀ n, next ≤ n → stored.handles (String.ofList (List.replicate n 'h')) = none

namespace Memory

theorem name_inj {m n : Nat} (same : String.ofList (List.replicate m 'h') =
    String.ofList (List.replicate n 'h')) : m = n := by
  have length := congrArg (fun s : String => s.toList.length) same
  simpa using length

def setFile (m : Memory) (path : String) (content : Bytes) : Memory :=
  { m with stored := m.stored.setFile path content }

def add (m : Memory) (held : FileStore.Held String File) : String × Memory :=
  (String.ofList (List.replicate m.next 'h'),
    { stored := m.stored.hold (String.ofList (List.replicate m.next 'h')) held
      next := m.next + 1
      fresh := fun n later => by
        have different : String.ofList (List.replicate n 'h') ≠
            String.ofList (List.replicate m.next 'h') := by
          intro same
          have equal := name_inj same
          omega
        rw [FileStore.hold_handles_other different, m.fresh n (Nat.le_of_succ_le later)] })

def replace (m : Memory) (h : String) (held : FileStore.Held String File)
    (known : m.stored.handles h ≠ none) : Memory :=
  { m with
    stored := m.stored.hold h held
    fresh := fun n later => by
      have different : String.ofList (List.replicate n 'h') ≠ h := by
        rintro rfl
        exact known (m.fresh n later)
      rw [FileStore.hold_handles_other different, m.fresh n later] }

def close (m : Memory) (h : String) : Memory :=
  { m with
    stored := m.stored.close h
    fresh := fun n later => by
      by_cases same : String.ofList (List.replicate n 'h') = h
      · rw [same, FileStore.close_handles_same]
      · rw [FileStore.close_handles_other same, m.fresh n later] }

/-- The file that a handle may be used for, with its content. -/
def content (m : Memory) (h : String) (may : FileStore.Mode → Bool) : Option (String × Bytes) :=
  match m.stored.handles h with
  | some (.file path mode) =>
      if may mode then (m.stored.files path).map fun content => (path, content) else none
  | _ => none

theorem content_eq {m : Memory} {h path : String} {mode : FileStore.Mode} {content : Bytes}
    {may : FileStore.Mode → Bool} (held : m.stored.handles h = some (.file path mode))
    (allowed : may mode = true) (there : m.stored.files path = some content) :
    m.content h may = some (path, content) := by
  simp [Memory.content, held, allowed, there]

/-- A READ gives as much as it may, a READDIR one entry at a time. -/
def handler : Server.Handler Memory StatusCode where
  into := id
  unimplemented _ := .opUnsupported
  «open» id path flags _ m :=
    match flags.mode.bind fun mode =>
        (FileStore.opened mode (m.stored.files path)).map fun content => (mode, content) with
    | some (mode, content) =>
        let (h, m) := (m.setFile path content).add (.file path mode)
        (.ok ⟨id, h⟩, m)
    | none => (.error .failure, m)
  close id h m :=
    match m.stored.handles h with
    | some _ => (.ok ⟨id, .ok, "", ""⟩, m.close h)
    | none => (.error .failure, m)
  read id h offset len m :=
    match m.content h FileStore.Mode.reads with
    | some (_, content) =>
        if offset.toNat < content.length then
          (.ok ⟨id, (content.drop offset.toNat).take len.toNat⟩, m)
        else (.error .eof, m)
    | none => (.error .failure, m)
  write id h offset data m :=
    match m.content h FileStore.Mode.writes with
    | some (path, content) =>
        (.ok ⟨id, .ok, "", ""⟩,
          m.setFile path (LocalFile.writeAt 0 content offset.toNat data))
    | none => (.error .failure, m)
  opendir id path m :=
    match m.stored.folders path with
    | some entries =>
        let (h, m) := m.add (.folder entries)
        (.ok ⟨id, h⟩, m)
    | none => (.error .noSuchFile, m)
  readdir id h m :=
    match known : m.stored.handles h with
    | some (.folder (entry :: rest)) =>
        (.ok ⟨id, [entry]⟩, m.replace h (.folder rest) (by simp [known]))
    | some (.folder []) => (.error .eof, m)
    | _ => (.error .failure, m)

theorem stores : handler.Stores Memory.stored where
  opens id path flags mode content s asks opened := by
    have chosen : (flags.mode.bind fun mode =>
        (FileStore.opened mode (s.stored.files path)).map fun content => (mode, content)) =
          some (mode, content) := by
      rw [asks, Option.bind_some, opened]
      rfl
    refine ⟨_, ((s.setFile path content).add (.file path mode)).2, ?_,
      s.fresh s.next (Nat.le_refl _), rfl⟩
    simp only [handler, chosen]
    rfl
  reads id h offset len path mode content s held readable there asks := by
    have found := content_eq held readable there
    have positive : 0 < len.toNat := Nat.pos_of_ne_zero fun zero =>
      asks (UInt32.toNat_inj.mp zero)
    by_cases before : offset.toNat < content.length
    · refine ⟨.ok ⟨id, (content.drop offset.toNat).take len.toNat⟩, s,
        by simp only [handler, found, if_pos before], rfl, ?_⟩
      rw [if_pos before]
      refine ⟨_, rfl, ?_, List.length_take_le .., List.take_prefix ..⟩
      rw [← List.length_pos_iff, List.length_take, List.length_drop]
      omega
    · refine ⟨.error .eof, s, by simp only [handler, found, if_neg before], rfl, ?_⟩
      rw [if_neg before]
      exact ⟨.eof, rfl, rfl⟩
  writes id h offset data path mode content s held writable there := by
    have found := content_eq held writable there
    exact ⟨⟨id, .ok, "", ""⟩, s.setFile path (LocalFile.writeAt 0 content offset.toNat data),
      by simp only [handler, found], rfl, rfl, rfl⟩
  opensFolder id path entries s there := by
    refine ⟨_, (s.add (.folder entries)).2, ?_, s.fresh s.next (Nat.le_refl _), rfl⟩
    simp only [handler, there]
    rfl
  lists id h rest s held nonempty := by
    obtain ⟨entry, left, rfl⟩ := List.exists_cons_of_ne_nil nonempty
    refine ⟨[entry], left, s.replace h (.folder left) (by simp [held]), ?_, by simp, rfl, rfl⟩
    simp only [handler]
    split
    · rename_i first rest known
      rw [held] at known
      cases known
      rfl
    · rename_i known
      rw [held] at known
      cases known
    · rename_i notCons _
      exact absurd held (notCons entry left)
  listed id h s held := by
    refine ⟨.eof, s, ?_, rfl, rfl⟩
    simp only [handler]
    split
    · rename_i first rest known
      rw [held] at known
      cases known
    · rfl
    · rename_i notNil
      exact absurd held notNil
  closes id h held s isHeld :=
    ⟨⟨id, .ok, "", ""⟩, s.close h, by simp only [handler, isHeld], rfl, rfl, rfl⟩

end Memory

end RusshSftp
