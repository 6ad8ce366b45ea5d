import RusshSftp.Lib.Reader

/-!
# Readers that keep a log

A `Logged` reader notes events while it reads, and its log outlives its failure.  Without the log
it is the reader that `erase` gives; so what the log says of a loop is said of that loop.
-/

set_option autoImplicit false

namespace ByteCodec

def Logged (ω ε α : Type) := List UInt8 → List ω × Except ε (α × List UInt8)

namespace Logged
variable {ω ε α β : Type}

/-- The reader without its log. -/
def erase (l : Logged ω ε α) : ByteReader ε α := fun input => (l input).2

/-- A reader that notes nothing. -/
def free (r : ByteReader ε α) : Logged ω ε α := fun input => ([], r.run input)

/-- Note an event, and then read. -/
def noting (event : ω) (r : ByteReader ε α) : Logged ω ε α := fun input => ([event], r.run input)

def bind (l : Logged ω ε α) (f : α → Logged ω ε β) : Logged ω ε β := fun input =>
  match l input with
  | (log, .error e) => (log, .error e)
  | (log, .ok (a, rest)) => (log ++ (f a rest).1, (f a rest).2)

def map (l : Logged ω ε α) (g : α → β) : Logged ω ε β := l.bind fun a => free (pure (g a))

def readMany (l : Logged ω ε α) : Nat → Logged ω ε (List α)
  | 0 => free (pure [])
  | count + 1 =>
      l.bind fun value => (readMany l count).bind fun values => free (pure (value :: values))

def foldToEnd (l : Logged ω ε α) (insert : β → α → β) (stuck : ε) : Nat → β → Logged ω ε β
  | 0, acc => free (ByteCodec.foldToEnd l.erase insert stuck 0 acc)
  | fuel + 1, acc => fun input =>
      match input with
      | [] => ([], .ok (acc, []))
      | byte :: rest =>
          l.bind (fun value => foldToEnd l insert stuck fuel (insert acc value)) (byte :: rest)

/-! ## The reader under the log -/

theorem erase_free (r : ByteReader ε α) : (free r : Logged ω ε α).erase = r := rfl

theorem erase_bind (l : Logged ω ε α) (f : α → Logged ω ε β) :
    (l.bind f).erase = l.erase >>= fun a => (f a).erase := by
  funext input
  change (l.bind f input).2 = (l.erase >>= fun a => (f a).erase).run input
  rw [StateT.run_bind, bind]
  change _ = (l input).2 >>= _
  cases read : l input with
  | mk log result =>
      cases result with
      | error e => rfl
      | ok got => rfl

theorem erase_map (l : Logged ω ε α) (g : α → β) : (l.map g).erase = g <$> l.erase := by
  rw [map, erase_bind]
  simp only [erase_free, bind_pure_comp]

theorem erase_readMany (l : Logged ω ε α) (count : Nat) :
    (readMany l count).erase = ByteCodec.readMany l.erase count := by
  induction count with
  | zero => rfl
  | succ count ih =>
      rw [readMany, erase_bind, ByteCodec.readMany]
      simp only [erase_bind, ih, erase_free]

theorem erase_foldToEnd (l : Logged ω ε α) (insert : β → α → β) (stuck : ε) (fuel : Nat)
    (acc : β) :
    (foldToEnd l insert stuck fuel acc).erase =
      ByteCodec.foldToEnd l.erase insert stuck fuel acc := by
  induction fuel generalizing acc with
  | zero => rfl
  | succ fuel ih =>
      funext input
      cases input with
      | nil => rfl
      | cons byte rest =>
          change (l.bind (fun value => foldToEnd l insert stuck fuel (insert acc value))).erase
            (byte :: rest) = _
          rw [erase_bind]
          simp only [ih]
          rfl

/-! ## What is noted -/

/-- A successful read splits the log of a sequence. -/
theorem bind_ok {l : Logged ω ε α} {f : α → Logged ω ε β} {input rest : List UInt8} {b : β}
    (read : (l.bind f input).2 = .ok (b, rest)) :
    ∃ a middle, (l input).2 = .ok (a, middle) ∧ (f a middle).2 = .ok (b, rest) ∧
      (l.bind f input).1 = (l input).1 ++ (f a middle).1 := by
  rw [bind] at read ⊢
  cases first : l input with
  | mk log result =>
      rw [first] at read
      cases result with
      | error e => cases read
      | ok got => exact ⟨got.1, got.2, rfl, read, rfl⟩

/-- What notes nothing adds nothing to the log. -/
theorem bind_free_log (l : Logged ω ε α) (r : α → ByteReader ε β) (input : List UInt8) :
    (l.bind (fun a => free (r a)) input).1 = (l input).1 := by
  rw [bind]
  cases read : l input with
  | mk log result =>
      cases result with
      | error e => rfl
      | ok got => exact List.append_nil log

/-- Where the read succeeds, all events that it notes are as `P` says. -/
def Notes (P : ω → Prop) (l : Logged ω ε α) : Prop :=
  ∀ input a rest, (l input).2 = .ok (a, rest) → ∀ event ∈ (l input).1, P event

variable {P : ω → Prop}

theorem notes_free (r : ByteReader ε α) : Notes P (free r) := by
  intro input a rest read event member
  cases member

theorem Notes.bind {l : Logged ω ε α} {f : α → Logged ω ε β} (first : Notes P l)
    (later : ∀ a, Notes P (f a)) : Notes P (l.bind f) := by
  intro input b rest read event member
  obtain ⟨a, middle, one, two, log⟩ := bind_ok read
  rw [log, List.mem_append] at member
  rcases member with early | late
  · exact first input a middle one event early
  · exact later a middle b rest two event late

theorem Notes.map {l : Logged ω ε α} (notes : Notes P l) (g : α → β) : Notes P (l.map g) :=
  notes.bind fun _ => notes_free _

theorem Notes.readMany {l : Logged ω ε α} (each : Notes P l) (count : Nat) :
    Notes P (readMany l count) := by
  induction count with
  | zero => exact notes_free _
  | succ count ih => exact each.bind fun _ => ih.bind fun _ => notes_free _

theorem Notes.foldToEnd {l : Logged ω ε α} (each : Notes P l) (insert : β → α → β) (stuck : ε)
    (fuel : Nat) (acc : β) : Notes P (foldToEnd l insert stuck fuel acc) := by
  induction fuel generalizing acc with
  | zero => exact notes_free _
  | succ fuel ih =>
      intro input b rest read event member
      cases input with
      | nil => cases member
      | cons byte input =>
          exact each.bind (fun value => ih (insert acc value)) (byte :: input) b rest read event
            member

/-! ## How often a loop reads

A reader that takes some bytes whenever it succeeds can succeed only so often, and the loop ends
with its first failure. -/

/-- The reader notes at most one event, and takes at least `least` bytes where it succeeds. -/
structure Takes (least : Nat) (l : Logged ω ε α) : Prop where
  once : ∀ input, (l input).1.length ≤ 1
  bytes : ∀ input a rest, (l input).2 = .ok (a, rest) → rest.length + least ≤ input.length

section
variable {least : Nat} {l : Logged ω ε α}

theorem div_succ_le {rest input : Nat} (positive : 0 < least) (taken : rest + least ≤ input) :
    rest / least + 1 ≤ input / least := by
  rw [← Nat.add_div_right rest positive]
  exact Nat.div_le_div_right taken

/-- One round, and what is left for the others. -/
theorem Takes.round (takes : Takes least l) (positive : 0 < least) {f : α → Logged ω ε β}
    (later : ∀ a (rest : List UInt8), (f a rest).1.length ≤ rest.length / least + 1)
    (input : List UInt8) : (l.bind f input).1.length ≤ input.length / least + 1 := by
  have once := takes.once input
  rw [bind]
  cases read : l input with
  | mk log result =>
      rw [read] at once
      cases result with
      | error e => exact Nat.le_trans once (Nat.le_add_left _ _)
      | ok got =>
          have more := later got.1 got.2
          have fewer := div_succ_le positive
            (takes.bytes input got.1 got.2 (congrArg Prod.snd read))
          rw [List.length_append]
          dsimp only at once
          omega

theorem Takes.readMany_le (takes : Takes least l) (positive : 0 < least) (count : Nat)
    (input : List UInt8) : (readMany l count input).1.length ≤ input.length / least + 1 := by
  induction count generalizing input with
  | zero => exact Nat.zero_le _
  | succ count ih =>
      refine takes.round positive (fun value rest => ?_) input
      rw [bind_free_log]
      exact ih rest

theorem Takes.foldToEnd_le (takes : Takes least l) (positive : 0 < least) (insert : β → α → β)
    (stuck : ε) (fuel : Nat) (acc : β) (input : List UInt8) :
    (foldToEnd l insert stuck fuel acc input).1.length ≤ input.length / least + 1 := by
  induction fuel generalizing acc input with
  | zero => exact Nat.zero_le _
  | succ fuel ih =>
      cases input with
      | nil => exact Nat.zero_le _
      | cons byte input =>
          exact takes.round positive (fun value rest => ih (insert acc value) rest) (byte :: input)

/-- Reading something else first leaves fewer bytes for the loop. -/
theorem free_bind_le {r : ByteReader ε α} {f : α → Logged ω ε β}
    (shrinks : ∀ input a rest, r.run input = .ok (a, rest) → rest.length ≤ input.length)
    (later : ∀ a (rest : List UInt8), (f a rest).1.length ≤ rest.length / least + 1)
    (input : List UInt8) : ((free r).bind f input).1.length ≤ input.length / least + 1 := by
  rw [bind, free]
  cases read : r.run input with
  | error e => exact Nat.zero_le _
  | ok got =>
      have fewer := Nat.div_le_div_right (c := least) (shrinks input got.1 got.2 read)
      exact Nat.le_trans (later got.1 got.2) (Nat.add_le_add_right fewer 1)

end

end Logged

end ByteCodec
