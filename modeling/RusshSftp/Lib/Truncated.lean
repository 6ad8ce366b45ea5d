import RusshSftp.Lib.Reader

/-!
# Readers and truncated input

A reader `Extends` when more input changes nothing once it has read its value; such a reader
refuses every proper beginning of what it consumes.  A reader that takes the end of its input
for a value accepts some beginnings: `Cut r bytes cut` says that of the beginnings of `bytes`
it accepts the one of length `cut` and no other.
-/

set_option autoImplicit false

namespace ByteCodec

section
variable {ε α β : Type}

/-- More input changes nothing for the reader, once it has read its value. -/
def Extends (r : ByteReader ε α) : Prop :=
  ∀ input a rest more, r.run input = .ok (a, rest) → r.run (input ++ more) = .ok (a, rest ++ more)

/-- Of the proper beginnings of `bytes` the reader accepts the one of length `cut`, and no other. -/
def Cut (r : ByteReader ε α) (bytes : List UInt8) (cut : Option Nat) : Prop :=
  ∀ n < bytes.length,
    if cut = some n then ∃ a, r.run (bytes.take n) = .ok (a, [])
    else ∃ e, r.run (bytes.take n) = .error e

/-! ## Readers that do not look at the end -/

theorem extends_pure (a : α) : Extends (pure a : ByteReader ε α) := by
  rintro input b rest more read
  obtain ⟨rfl, rfl⟩ := pure_ok read
  rfl

theorem Extends.bind {r : ByteReader ε α} {f : α → ByteReader ε β} (first : Extends r)
    (later : ∀ a, Extends (f a)) : Extends (r >>= f) := by
  intro input b rest more read
  obtain ⟨a, middle, one, two⟩ := bind_ok read
  rw [run_bind_ok (first input a middle more one)]
  exact later a middle b rest more two

theorem Extends.map {r : ByteReader ε α} (g : α → β) (extended : Extends r) :
    Extends (g <$> r) := by
  intro input b rest more read
  obtain ⟨a, first, rfl⟩ := map_ok read
  exact run_map_ok g (extended input a rest more first)

theorem Extends.mapErr {ε' : Type} {r : ByteReader ε α} (f : ε → ε') (extended : Extends r) :
    Extends (mapErr f r) := by
  intro input a rest more read
  show (r.run (input ++ more)).mapError f = _
  rw [extended input a rest more (mapErr_ok read)]
  rfl

theorem extends_readMany {r : ByteReader ε α} (each : Extends r) (count : Nat) :
    Extends (readMany r count) := by
  induction count with
  | zero => exact extends_pure []
  | succ count ih => exact each.bind fun value => ih.bind fun values => extends_pure _

/-! ## Beginnings -/

/-- A reader that does not look at the end accepts no proper beginning. -/
theorem Extends.cut {r : ByteReader ε α} (extended : Extends r) {bytes : List UInt8} {a : α}
    (whole : Consumes r bytes a) : Cut r bytes none := by
  intro n proper
  rw [if_neg (by simp)]
  cases read : r.run (bytes.take n) with
  | error e => exact ⟨e, rfl⟩
  | ok got =>
      have longer := extended _ _ _ (bytes.drop n) read
      have all := whole []
      rw [List.append_nil, ← List.take_append_drop n bytes, longer] at all
      have left := (Prod.mk.inj (Except.ok.inj all)).2
      have length := congrArg List.length left
      rw [List.length_append, List.length_drop, List.length_nil] at length
      omega

theorem Cut.map {r : ByteReader ε α} {bytes : List UInt8} {cut : Option Nat} (g : α → β)
    (cuts : Cut r bytes cut) : Cut (g <$> r) bytes cut := by
  intro n proper
  have one := cuts n proper
  split
  · rename_i here
    rw [if_pos here] at one
    obtain ⟨a, read⟩ := one
    exact ⟨g a, run_map_ok g read⟩
  · rename_i elsewhere
    rw [if_neg elsewhere] at one
    obtain ⟨e, read⟩ := one
    exact ⟨e, by rw [StateT.run_map, read]; rfl⟩

/-- One reader after another.  If the first may be cut, the second must refuse the empty input. -/
theorem Cut.bind {r : ByteReader ε α} {f : α → ByteReader ε β} {front back : List UInt8} {a : α}
    {inner cut : Option Nat} (whole : Consumes r front a) (first : Cut r front inner)
    (blocked : inner = none ∨ ∀ value, ∃ e, (f value).run [] = .error e)
    (later : Cut (f a) back cut) :
    Cut (r >>= f) (front ++ back) (cut.map fun n => front.length + n) := by
  intro n proper
  rw [List.length_append] at proper
  by_cases early : n < front.length
  · have refused : ∃ e, (r >>= f).run (front.take n) = .error e := by
      have one := first n early
      rw [StateT.run_bind]
      by_cases here : inner = some n
      · rw [if_pos here] at one
        obtain ⟨value, read⟩ := one
        obtain ⟨e, empty⟩ := (blocked.resolve_left (by simp [here])) value
        exact ⟨e, by rw [read]; exact empty⟩
      · rw [if_neg here] at one
        obtain ⟨e, read⟩ := one
        exact ⟨e, by rw [read]; rfl⟩
    rw [if_neg, List.take_append_of_le_length (by omega)]
    · exact refused
    · rw [Option.map_eq_some_iff]
      rintro ⟨m, -, same⟩
      omega
  · obtain ⟨m, rfl⟩ : ∃ m, n = front.length + m := ⟨n - front.length, by omega⟩
    have one := later m (by omega)
    have same : (cut.map (fun n => front.length + n) = some (front.length + m)) ↔ cut = some m := by
      rw [Option.map_eq_some_iff]
      constructor
      · rintro ⟨k, isCut, sum⟩
        rw [isCut]
        congr 1
        omega
      · intro isCut
        exact ⟨m, isCut, rfl⟩
    rw [List.take_length_add_append, run_bind_ok (whole _)]
    simpa only [same] using one

/-- A list of values, where no value is read from nothing: only a beginning that stops in the
last one may be accepted. -/
theorem cut_readMany {γ : Type} (r : ByteReader ε α) (wire : γ → List UInt8) (cut : γ → Option Nat)
    (front : List γ) (last : γ) (starved : ∃ e, r.run [] = .error e)
    (whole : ∀ item ∈ front ++ [last], ∃ a, Consumes r (wire item) a)
    (cuts : ∀ item ∈ front ++ [last], Cut r (wire item) (cut item)) :
    Cut (readMany r (front.length + 1)) ((front ++ [last]).flatMap wire)
      ((cut last).map fun n => (front.flatMap wire).length + n) := by
  induction front with
  | nil =>
      have one := (cuts last (by simp)).map fun value => [value]
      have single : readMany r 1 = (fun value => [value]) <$> r := by simp [readMany]
      simpa [single] using one
  | cons item front ih =>
      obtain ⟨a, first⟩ := whole item (by simp)
      have later := (ih (fun other member => whole other (List.mem_cons_of_mem _ member))
        (fun other member => cuts other (List.mem_cons_of_mem _ member))).map
          fun values => a :: values
      have blocked (value : α) : ∃ e, (readMany r (front.length + 1) >>= fun values =>
          pure (value :: values) : ByteReader ε (List α)).run [] = .error e := by
        obtain ⟨e, empty⟩ := starved
        exact ⟨e, by rw [readMany, StateT.run_bind, StateT.run_bind, empty]; rfl⟩
      have both := Cut.bind first (cuts item (by simp)) (.inr blocked) (by
        rw [map_eq_pure_bind] at later
        exact later)
      show Cut (r >>= fun value => readMany r (front.length + 1) >>= fun values =>
        pure (value :: values)) _ _
      rw [List.cons_append, List.flatMap_cons]
      simpa [Option.map_map, Function.comp_def, Nat.add_assoc] using both

end

end ByteCodec
