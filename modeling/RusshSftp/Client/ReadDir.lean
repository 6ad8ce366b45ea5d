import RusshSftp.Client.WholeFile

/-!
# Reading a directory

`SftpSession::read_dir` opens the directory, asks for its entries until the server tells the
end, and closes the handle.  Each batch goes in front of those before it.  `ReadDir` gives
the entries one by one and skips `.` and `..`.
-/

set_option autoImplicit false

namespace RusshSftp.Client

/-! ## The iterator -/

/-- Entries returned by the `ReadDir` iterator. -/
structure DirEntry where
  file : String
  metadata : FileAttributes
deriving DecidableEq, Repr

/-- Iterator over the entries in a remote directory. -/
structure ReadDir where
  entries : List (String × FileAttributes)
deriving DecidableEq, Repr

def isDot (file : String) : Bool := file == "." || file == ".."

/-- `next` on the queue of entries: it calls itself after `.` and `..`. -/
def popNext : List (String × FileAttributes) → Option DirEntry × List (String × FileAttributes)
  | [] => (none, [])
  | (file, metadata) :: entries =>
      if isDot file then popNext entries else (some ⟨file, metadata⟩, entries)

def ReadDir.next (dir : ReadDir) : Option DirEntry × ReadDir :=
  let (entry, entries) := popNext dir.entries
  (entry, ⟨entries⟩)

/-- What so many calls of `next` give. -/
def ReadDir.nexts : Nat → ReadDir → List (Option DirEntry)
  | 0, _ => []
  | n + 1, dir =>
      let (entry, dir) := dir.next
      entry :: ReadDir.nexts n dir

/-! ## The session -/

/-- `?` on what is awaited, with the requests sent so far. -/
def Awaited.andThen {α β : Type} (first : Awaited α × List Request)
    (next : α → Awaited β × List Request) : Awaited β × List Request :=
  match first with
  | (.done (.ok a), sent) =>
      let (last, later) := next a
      (last, sent ++ later)
  | (.done (.error err), sent) => (.done (.error err), sent)
  | (.pending, sent) => (.pending, sent)
  | (.panicked, sent) => (.panicked, sent)

namespace SftpSession

section
variable (extensions : SessionExtensions) (handles : UInt64)

/-- A call of the session that is awaited. -/
def call (request : Request) (turn : Turn) : Awaited request.Reply × List Request :=
  match request.operation.limited extensions.sessionLimits handles with
  | some err => (.done (.error err), [])
  | none =>
      match turn with
      | .refused err => (.done (.error err), [])
      | .pending => (.pending, [request])
      | .ready result => (.done (request.returned result), [request])

/-- The entries of a batch, as `read_dir` keeps them. -/
def batchEntries (name : Name) : List (String × FileAttributes) :=
  name.files.map fun f => (f.filename, f.attrs)

/-- The loop of `read_dir`, with a turn for each READDIR. -/
def readDirLoop (handle : String) : List Turn → List (String × FileAttributes) →
    Awaited (List (String × FileAttributes)) × List Request
  | [], _ => (.pending, [])
  | turn :: rounds, files =>
      match call extensions handles (.readdir handle) turn with
      | (.done (.ok name), sent) =>
          let (last, later) := readDirLoop handle rounds (batchEntries name ++ files)
          (last, sent ++ later)
      | (.done (.error (.status status)), sent) =>
          if status.statusCode = .eof then (.done (.ok files), sent)
          else (.done (.error (.status status)), sent)
      | (.done (.error err), sent) => (.done (.error err), sent)
      | (.pending, sent) => (.pending, sent)
      | (.panicked, sent) => (.panicked, sent)

/-- The rest of `read_dir`, once the directory is open. -/
def readEntries (handle : String) (rounds : List Turn) (closing : Turn) :
    Awaited ReadDir × List Request :=
  Awaited.andThen (readDirLoop extensions handles handle rounds []) fun files =>
    Awaited.andThen (call extensions handles (.close handle) closing) fun _ =>
      (.done (.ok ⟨files⟩), [])

/-- Returns an iterator over the entries within a directory. -/
def readDir (path : String) (opening : Turn) (rounds : List Turn) (closing : Turn) :
    Awaited ReadDir × List Request :=
  Awaited.andThen (call extensions handles (.opendir path) opening) fun reply =>
    readEntries extensions handles (Handle.handle reply) rounds closing

end

end SftpSession

/-! ## One round -/

/-- The answers are batches, and then a status `Eof`. -/
def endsByEof : List Turn → Bool
  | .ready (.ok (.name _)) :: rounds => endsByEof rounds
  | .ready (.ok (.status p)) :: _ | .ready (.error (.status p)) :: _
  | .refused (.status p) :: _ => p.statusCode == .eof
  | _ => false

/-- The batches before the first answer that is none. -/
def batchesOf : List Turn → List Name
  | .ready (.ok (.name p)) :: rounds => p :: batchesOf rounds
  | _ => []

namespace SftpSession

section
variable {extensions : SessionExtensions} {handles : UInt64} {handle : String}

/-- A READDIR that brings no batch ends the loop, or waits. -/
structure Stops (handle : String) (turn : Turn) (rounds : List Turn)
    (files : List (String × FileAttributes))
    (outcome : Awaited (List (String × FileAttributes)) × List Request) : Prop where
  sent : ∀ request ∈ outcome.2, request = .readdir handle
  result : if endsByEof (turn :: rounds) then outcome.1 = .done (.ok files)
    else ∀ files', outcome.1 ≠ .done (.ok files')

theorem readDirLoop_name (p : Name) (rounds : List Turn)
    (files : List (String × FileAttributes)) :
    readDirLoop extensions handles handle (.ready (.ok (.name p)) :: rounds) files =
      ((readDirLoop extensions handles handle rounds (batchEntries p ++ files)).1,
        .readdir handle ::
          (readDirLoop extensions handles handle rounds (batchEntries p ++ files)).2) := rfl

theorem readDirLoop_stops (turn : Turn) (rounds : List Turn)
    (files : List (String × FileAttributes)) (other : ∀ p, turn ≠ .ready (.ok (.name p))) :
    Stops handle turn rounds files
      (readDirLoop extensions handles handle (turn :: rounds) files) := by
  have byStatus (p : Status) (sent : List Request) (only : ∀ request ∈ sent,
      request = .readdir handle) (ends : endsByEof (turn :: rounds) = (p.statusCode == .eof))
      (same : readDirLoop extensions handles handle (turn :: rounds) files =
        if p.statusCode = .eof then (.done (.ok files), sent)
        else (.done (.error (.status p)), sent)) :
      Stops handle turn rounds files
        (readDirLoop extensions handles handle (turn :: rounds) files) := by
    rw [same]
    by_cases code : p.statusCode = .eof
    · rw [if_pos code]
      exact ⟨only, by rw [ends, code]; rfl⟩
    · rw [if_neg code]
      refine ⟨only, ?_⟩
      rw [ends, beq_eq_false_iff_ne.mpr code]
      exact fun files' done => by cases done
  have none : ∀ request ∈ ([] : List Request), request = .readdir handle := by simp
  have one : ∀ request ∈ [Request.readdir handle], request = .readdir handle := by simp
  cases turn with
  | refused err =>
      cases err with
      | status p => exact byStatus p [] none rfl rfl
      | _ => exact ⟨none, fun files' done => by cases done⟩
  | pending => exact ⟨one, fun files' done => by cases done⟩
  | ready result =>
      cases result with
      | error err =>
          cases err with
          | status p => exact byStatus p _ one rfl rfl
          | _ => exact ⟨one, fun files' done => by cases done⟩
      | ok packet =>
          cases packet with
          | name p => exact absurd rfl (other p)
          | status p => exact byStatus p _ one rfl rfl
          | _ => exact ⟨one, fun files' done => by cases done⟩

/-! ## The whole loop -/

/-- The loop sends nothing but READDIR, and it is left with the entries just when the batches are
followed by a status `Eof`. -/
theorem readDirLoop_outcome (rounds : List Turn) (files : List (String × FileAttributes)) :
    (∀ request ∈ (readDirLoop extensions handles handle rounds files).2,
      request = .readdir handle) ∧
    if endsByEof rounds then
      (readDirLoop extensions handles handle rounds files).1 =
        .done (.ok ((batchesOf rounds).reverse.flatMap batchEntries ++ files))
    else ∀ files', (readDirLoop extensions handles handle rounds files).1 ≠ .done (.ok files') := by
  induction rounds generalizing files with
  | nil =>
      refine ⟨(fun request member => by cases member), ?_⟩
      exact fun files' done => by cases done
  | cons turn rounds ih =>
      by_cases batch : ∃ p, turn = .ready (.ok (.name p))
      · obtain ⟨p, rfl⟩ := batch
        obtain ⟨only, result⟩ := ih (batchEntries p ++ files)
        rw [readDirLoop_name]
        refine ⟨?_, ?_⟩
        · intro request member
          rcases List.mem_cons.mp member with same | later
          · exact same
          · exact only request later
        · have order :
              (batchesOf (.ready (.ok (.name p)) :: rounds)).reverse.flatMap batchEntries ++ files =
                (batchesOf rounds).reverse.flatMap batchEntries ++ (batchEntries p ++ files) := by
            simp [batchesOf]
          rw [order]
          exact result
      · have other : ∀ p, turn ≠ .ready (.ok (.name p)) := fun p same => batch ⟨p, same⟩
        have stops : Stops handle turn rounds files
            (readDirLoop extensions handles handle (turn :: rounds) files) :=
          readDirLoop_stops turn rounds files other
        have none : batchesOf (turn :: rounds) = [] := by
          unfold batchesOf
          split
          · rename_i p later same
            cases same
            exact absurd rfl (other p)
          · rfl
        refine ⟨stops.sent, ?_⟩
        rw [none]
        exact stops.result

theorem call_sent {request : Request} {turn : Turn} {last : Awaited request.Reply}
    {sent : List Request} (called : call extensions handles request turn = (last, sent)) :
    ∀ other ∈ sent, other = request := by
  unfold call at called
  split at called
  · cases called
    simp
  · cases turn <;> cases called <;> simp

theorem readDir_opened {path : String} {opening : Turn} (rounds : List Turn) (closing : Turn)
    {reply : Handle} {opened : List Request}
    (opens : call extensions handles (.opendir path) opening = (.done (.ok reply), opened)) :
    readDir extensions handles path opening rounds closing =
      ((readEntries extensions handles reply.handle rounds closing).1,
        opened ++ (readEntries extensions handles reply.handle rounds closing).2) := by
  rw [readDir, opens]
  rfl

/-- The loop was left with the entries. -/
theorem readEntries_ok {rounds : List Turn} (closing : Turn)
    {files : List (String × FileAttributes)} {asked : List Request}
    (looped : readDirLoop extensions handles handle rounds [] = (.done (.ok files), asked)) :
    readEntries extensions handles handle rounds closing =
      match closing with
      | .refused err => (.done (.error err), asked)
      | .pending => (.pending, asked ++ [.close handle])
      | .ready answer =>
          (.done (((Request.close handle).returned answer).map fun _ => ⟨files⟩),
            asked ++ [.close handle]) := by
  rw [readEntries, looped]
  cases closing with
  | refused err => exact congrArg (Prod.mk _) (List.append_nil asked)
  | pending => rfl
  | ready answer =>
      show Awaited.andThen (.done (.ok files), asked) (fun files => Awaited.andThen
        (.done ((Request.close handle).returned answer), [.close handle]) fun _ => _) =
        (.done (((Request.close handle).returned answer).map _), _)
      cases (Request.close handle).returned answer <;> rfl

/-- The loop was left by an error. -/
theorem readEntries_error {rounds : List Turn} (closing : Turn) {err : Error}
    {asked : List Request}
    (looped : readDirLoop extensions handles handle rounds [] = (.done (.error err), asked)) :
    readEntries extensions handles handle rounds closing = (.done (.error err), asked) := by
  rw [readEntries, looped]
  rfl

theorem readEntries_done {rounds : List Turn} {closing : Turn} {result : SftpResult Client.ReadDir}
    {sent : List Request}
    (done : readEntries extensions handles handle rounds closing = (.done result, sent)) :
    ∃ left asked, readDirLoop extensions handles handle rounds [] = (.done left, asked) := by
  rcases looped : readDirLoop extensions handles handle rounds [] with ⟨last, asked⟩
  rw [readEntries, looped] at done
  cases last with
  | done left => exact ⟨left, asked, rfl⟩
  | _ => cases done

/-- The iterator that `read_dir` returns has the entries of the loop. -/
theorem readDir_ok {path : String} {opening : Turn} {rounds : List Turn} {closing : Turn}
    {dir : Client.ReadDir} {sent : List Request}
    (returned : readDir extensions handles path opening rounds closing = (.done (.ok dir), sent)) :
    ∃ handle asked, readDirLoop extensions handles handle rounds [] =
      (.done (.ok dir.entries), asked) := by
  rcases opens : call extensions handles (.opendir path) opening with ⟨last, opened⟩
  cases last with
  | done got =>
      cases got with
      | error err =>
          rw [readDir, opens] at returned
          cases returned
      | ok reply =>
          rw [readDir_opened rounds closing opens, Prod.mk.injEq] at returned
          obtain ⟨ends, -⟩ := returned
          obtain ⟨left, asked, looped⟩ := readEntries_done (Prod.ext ends rfl)
          refine ⟨_, asked, looped.trans ?_⟩
          cases left with
          | error err =>
              rw [readEntries_error closing looped] at ends
              cases ends
          | ok files =>
              rw [readEntries_ok closing looped] at ends
              cases closing with
              | ready answer =>
                  cases closed : (Request.close (Handle.handle reply)).returned answer with
                  | error err => simp only [closed] at ends; cases ends
                  | ok status =>
                      simp only [closed] at ends
                      cases ends
                      rfl
              | _ => cases ends
  | _ =>
      rw [readDir, opens] at returned
      cases returned

end

/-- Once its directory is open, `read_dir` returns with the handle closed just when the batches
end by a status `Eof` and the session takes the CLOSE. -/
theorem readDir_closes_iff (extensions : SessionExtensions) (handles : UInt64) (path : String)
    (opening : Turn) (rounds : List Turn) (closing : Turn) (reply : Handle)
    (opened sent : List Request) (result : SftpResult Client.ReadDir)
    (opens : call extensions handles (.opendir path) opening = (.done (.ok reply), opened))
    (returned : readDir extensions handles path opening rounds closing = (.done result, sent)) :
    .close reply.handle ∈ sent ↔ endsByEof rounds = true ∧ closing.refuses = false := by
  obtain ⟨only, outcome⟩ := @readDirLoop_outcome extensions handles reply.handle rounds []
  rw [readDir_opened rounds closing opens, Prod.mk.injEq] at returned
  obtain ⟨ends, rfl⟩ := returned
  obtain ⟨left, asked, looped⟩ := readEntries_done (Prod.ext ends rfl)
  rw [looped] at only outcome
  have early : .close reply.handle ∉ opened ++ asked := by
    intro member
    rcases List.mem_append.mp member with first | later
    · cases call_sent opens _ first
    · cases only _ later
  cases eof : endsByEof rounds with
  | false =>
      rw [eof] at outcome
      refine iff_of_false ?_ (fun both => by cases both.1)
      cases left with
      | ok files => exact absurd rfl (outcome files)
      | error err =>
          rw [readEntries_error closing looped]
          exact early
  | true =>
      rw [eof] at outcome
      have whole : left = .ok _ := Awaited.done.inj outcome
      rw [whole] at looped
      rw [readEntries_ok closing looped] at ends ⊢
      cases closing with
      | refused err => exact iff_of_false early (fun both => by cases both.2)
      | pending => cases ends
      | ready answer => exact iff_of_true (by simp) ⟨rfl, rfl⟩

/-- An empty directory. -/
theorem readDir_closes_iff_empty :
    .close "h" ∈ (readDir (.negotiated false none) 0 "/" (.ready (.ok (.handle ⟨1, "h"⟩)))
      [.ready (.ok (.name ⟨2, []⟩)), .ready (.ok (.status ⟨3, .eof, "", ""⟩))]
      (.ready (.ok (.status ⟨4, .ok, "", ""⟩)))).2 :=
  (readDir_closes_iff (.negotiated false none) 0 "/" (.ready (.ok (.handle ⟨1, "h"⟩)))
    [.ready (.ok (.name ⟨2, []⟩)), .ready (.ok (.status ⟨3, .eof, "", ""⟩))]
    (.ready (.ok (.status ⟨4, .ok, "", ""⟩))) ⟨1, "h"⟩ _ _ _ rfl rfl).mpr ⟨rfl, rfl⟩

/-- A READDIR that is answered by a status `Failure`. -/
theorem readDir_leaks :
    readDir (.negotiated false none) 0 "/" (.ready (.ok (.handle ⟨1, "h"⟩)))
        [.ready (.ok (.status ⟨2, .failure, "", ""⟩))] (.ready (.ok (.status ⟨3, .ok, "", ""⟩))) =
      (.done (.error (.status ⟨2, .failure, "", ""⟩)), [.opendir "/", .readdir "h"]) ∧
    .close "h" ∉ [Request.opendir "/", .readdir "h"] :=
  ⟨rfl, by simp⟩

/-! ## What the iterator gives -/

/-- Batches, and then the end. -/
def answeredBy (batches : List Name) (eof : Status) (rest : List Turn) : List Turn :=
  batches.map (fun batch => .ready (.ok (.name batch))) ++ .ready (.ok (.status eof)) :: rest

/-- The entries of some files, without `.` and `..`. -/
def listed (files : List RusshSftp.File) : List DirEntry :=
  (files.filter fun f => !isDot f.filename).map fun f => ⟨f.filename, f.attrs⟩

theorem batchesOf_answeredBy (batches : List Name) {eof : Status} (code : eof.statusCode = .eof)
    (rest : List Turn) :
    batchesOf (answeredBy batches eof rest) = batches ∧
      endsByEof (answeredBy batches eof rest) = true := by
  induction batches with
  | nil => exact ⟨rfl, beq_iff_eq.mpr code⟩
  | cons batch batches ih => exact ⟨congrArg (List.cons batch) ih.1, ih.2⟩

/-- The entries left in the queue. -/
def left (entries : List (String × FileAttributes)) : List DirEntry :=
  (entries.filter fun e => !isDot e.1).map fun e => ⟨e.1, e.2⟩

theorem popNext_eq (entries : List (String × FileAttributes)) :
    (popNext entries).1 = (left entries).head? ∧
      left (popNext entries).2 = (left entries).tail := by
  induction entries with
  | nil => exact ⟨rfl, rfl⟩
  | cons entry entries ih =>
      obtain ⟨file, metadata⟩ := entry
      by_cases dot : isDot file = true
      · simpa [popNext, left, dot] using ih
      · simp [popNext, left, dot]

/-- Each call of `next` gives one of those left, in their order, and there is none after them. -/
theorem nexts_eq (n : Nat) (dir : Client.ReadDir) :
    dir.nexts n = (List.range n).map fun i => (left dir.entries)[i]? := by
  induction n generalizing dir with
  | zero => rfl
  | succ n ih =>
      obtain ⟨first, later⟩ := popNext_eq dir.entries
      have next : dir.nexts (n + 1) = (popNext dir.entries).1 ::
        ReadDir.nexts n ⟨(popNext dir.entries).2⟩ := rfl
      rw [next, ih, first, later, List.range_succ_eq_map, List.map_cons, List.map_map]
      cases left dir.entries with
      | nil => simp [Function.comp_def]
      | cons entry entries => simp

theorem left_batchEntries (names : List Name) :
    left (names.flatMap batchEntries) = listed (names.flatMap Name.files) := by
  have maps : names.flatMap batchEntries =
      (names.flatMap Name.files).map fun f => (f.filename, f.attrs) := by
    rw [List.map_flatMap]
    rfl
  rw [maps, left, List.filter_map, List.map_map]
  rfl

/-- For all batches and the `Eof` behind them, `read_dir` returns an iterator over the entries of
the last batch, and so on to the first, each batch in its own order and without `.` and `..`. -/
theorem readDir_entries (extensions : SessionExtensions) (handles : UInt64) (path : String)
    (opening closing : Turn) (batches : List Name) (eof : Status) (code : eof.statusCode = .eof)
    (rest : List Turn) :
    (∀ dir sent, readDir extensions handles path opening (answeredBy batches eof rest) closing =
        (.done (.ok dir), sent) →
      (∀ n, dir.nexts n =
        (List.range n).map fun i => (listed (batches.reverse.flatMap Name.files))[i]?) ∧
      (listed (batches.reverse.flatMap Name.files)).Perm
        (listed (batches.flatMap Name.files))) ∧
    (∀ reply opened status,
      call extensions handles (.opendir path) opening = (.done (.ok reply), opened) →
      closing = .ready (.ok (.status status)) → status.statusCode = .ok →
      ∃ dir sent, readDir extensions handles path opening (answeredBy batches eof rest) closing =
        (.done (.ok dir), sent)) := by
  obtain ⟨names, ends⟩ := batchesOf_answeredBy batches code rest
  have looped (handle : String) :=
    (@readDirLoop_outcome extensions handles handle (answeredBy batches eof rest) []).2
  simp only [names, ends, if_true, List.append_nil] at looped
  constructor
  · intro dir sent returned
    obtain ⟨handle, asked, ended⟩ := readDir_ok returned
    have entries : dir.entries = batches.reverse.flatMap batchEntries := by
      have result := looped handle
      rw [ended, Awaited.done.injEq, Except.ok.injEq] at result
      exact result
    refine ⟨fun n => ?_, ?_⟩
    · rw [nexts_eq, entries, left_batchEntries]
    · exact (((List.reverse_perm batches).flatMap_right Name.files).filter _).map _
  · rintro reply opened status opens rfl ok
    have closed : (Request.close reply.handle).returned (.ok (.status status)) = .ok status :=
      if_pos ok
    refine ⟨⟨batches.reverse.flatMap batchEntries⟩, (readDir extensions handles path opening
      (answeredBy batches eof rest) (.ready (.ok (.status status)))).2, Prod.ext ?_ rfl⟩
    rw [readDir_opened _ _ opens, readEntries_ok _ (Prod.ext (looped _) rfl)]
    simp only [closed]
    rfl

/-- Two batches with dots at their ends, and an empty one between them. -/
theorem readDir_entries_dots :
    let batches : List Name := [⟨2, [⟨".", "", .empty⟩, ⟨"a", "", .empty⟩]⟩, ⟨3, []⟩,
      ⟨4, [⟨"b", "", .empty⟩, ⟨"..", "", .empty⟩]⟩]
    ∃ dir sent, readDir (.negotiated false none) 0 "/" (.ready (.ok (.handle ⟨1, "h"⟩)))
        (answeredBy batches ⟨5, .eof, "", ""⟩ []) (.ready (.ok (.status ⟨6, .ok, "", ""⟩))) =
      (.done (.ok dir), sent) ∧
      dir.nexts 3 = [some ⟨"b", .empty⟩, some ⟨"a", .empty⟩, none] := by
  intro batches
  obtain ⟨entries, returns⟩ := readDir_entries (.negotiated false none) 0 "/"
    (.ready (.ok (.handle ⟨1, "h"⟩))) (.ready (.ok (.status ⟨6, .ok, "", ""⟩))) batches
    ⟨5, .eof, "", ""⟩ rfl []
  obtain ⟨dir, sent, returned⟩ := returns ⟨1, "h"⟩ _ ⟨6, .ok, "", ""⟩ rfl rfl rfl
  exact ⟨dir, sent, returned, (entries dir sent returned).1 3⟩

end SftpSession

end RusshSftp.Client
