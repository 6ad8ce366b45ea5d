import Mathlib

/-!
# Byte readers and byte writers

A `ByteReader` takes a value from the front of a byte list or fails; a `ByteWriter`
appends bytes to an output or fails.  `Consumes r bytes value` says that `r`
reads `value` from exactly `bytes`, whatever follows; `ReadsAll` is the weaker
fact for a reader that needs to see the end of its input.  The rules below
compose these facts along `bind` and along loops.
-/

set_option autoImplicit false

namespace ByteCodec

abbrev ByteReader (ε α : Type) := StateT (List UInt8) (Except ε) α

abbrev ByteWriter (ε α : Type) := StateT (List UInt8) (Except ε) α

section Reading
variable {ε α β : Type}

def Consumes (r : ByteReader ε α) (bytes : List UInt8) (value : α) : Prop :=
  ∀ rest, r.run (bytes ++ rest) = .ok (value, rest)

def ReadsAll (r : ByteReader ε α) (bytes : List UInt8) (value : α) : Prop :=
  r.run bytes = .ok (value, [])

theorem Consumes.readsAll {r : ByteReader ε α} {bytes : List UInt8} {value : α}
    (h : Consumes r bytes value) : ReadsAll r bytes value := by
  have atEnd := h []
  rwa [List.append_nil] at atEnd

theorem consumes_pure (value : α) : Consumes (pure value : ByteReader ε α) [] value := by
  intro rest
  rfl

theorem Consumes.bind {r : ByteReader ε α} {f : α → ByteReader ε β} {front back : List UInt8}
    {a : α} {b : β} (first : Consumes r front a) (second : Consumes (f a) back b) :
    Consumes (r >>= f) (front ++ back) b := by
  intro rest
  rw [StateT.run_bind, List.append_assoc, first (back ++ rest)]
  exact second rest

theorem Consumes.bind_readsAll {r : ByteReader ε α} {f : α → ByteReader ε β}
    {front back : List UInt8} {a : α} {b : β}
    (first : Consumes r front a) (second : ReadsAll (f a) back b) :
    ReadsAll (r >>= f) (front ++ back) b := by
  rw [ReadsAll, StateT.run_bind, first back]
  exact second

theorem Consumes.map {r : ByteReader ε α} {bytes : List UInt8} {a : α} (g : α → β)
    (h : Consumes r bytes a) : Consumes (g <$> r) bytes (g a) := by
  intro rest
  rw [StateT.run_map, h rest]
  rfl

/-- The same reader with its errors translated. -/
def mapErr {ε' : Type} (f : ε → ε') (r : ByteReader ε α) : ByteReader ε' α := fun input =>
  (r.run input).mapError f

theorem Consumes.mapErr {ε' : Type} {r : ByteReader ε α} {bytes : List UInt8} {a : α}
    (f : ε → ε') (h : Consumes r bytes a) : Consumes (mapErr f r) bytes a := by
  intro rest
  show (r.run (bytes ++ rest)).mapError f = _
  rw [h rest]
  rfl

theorem ReadsAll.bind_pure {r : ByteReader ε α} {bytes : List UInt8} {a : α} (g : α → β)
    (h : ReadsAll r bytes a) : ReadsAll (r >>= fun x => pure (g x)) bytes (g a) := by
  rw [ReadsAll, StateT.run_bind, h]
  rfl

theorem ReadsAll.map {r : ByteReader ε α} {bytes : List UInt8} {a : α} (g : α → β)
    (h : ReadsAll r bytes a) : ReadsAll (g <$> r) bytes (g a) := by
  rw [ReadsAll, StateT.run_map, h]
  rfl

/-! ## Running one step -/

theorem run_bind_ok {r : ByteReader ε α} {f : α → ByteReader ε β} {input middle : List UInt8}
    {a : α} (first : r.run input = .ok (a, middle)) :
    (r >>= f).run input = (f a).run middle := by
  rw [StateT.run_bind, first]
  rfl

theorem run_map_ok {r : ByteReader ε α} {input rest : List UInt8} {a : α} (g : α → β)
    (first : r.run input = .ok (a, rest)) : (g <$> r).run input = .ok (g a, rest) := by
  rw [StateT.run_map, first]
  rfl

/-! ## Taking a successful read apart -/

theorem bind_ok {r : ByteReader ε α} {f : α → ByteReader ε β} {input rest : List UInt8} {b : β}
    (read : (r >>= f).run input = .ok (b, rest)) :
    ∃ a middle, r.run input = .ok (a, middle) ∧ (f a).run middle = .ok (b, rest) := by
  rw [StateT.run_bind] at read
  cases first : r.run input with
  | error e => rw [first] at read; cases read
  | ok got => rw [first] at read; exact ⟨got.1, got.2, rfl, read⟩

theorem map_ok {r : ByteReader ε α} {g : α → β} {input rest : List UInt8} {b : β}
    (read : (g <$> r).run input = .ok (b, rest)) :
    ∃ a, r.run input = .ok (a, rest) ∧ g a = b := by
  rw [StateT.run_map] at read
  cases first : r.run input with
  | error e => rw [first] at read; cases read
  | ok got =>
      rw [first] at read
      obtain ⟨same, left⟩ := Prod.mk.inj (Except.ok.inj read)
      exact ⟨got.1, by rw [← left], same⟩

theorem mapErr_ok {ε' : Type} {r : ByteReader ε α} {f : ε → ε'} {input rest : List UInt8} {a : α}
    (read : (mapErr f r).run input = .ok (a, rest)) : r.run input = .ok (a, rest) := by
  replace read : (r.run input).mapError f = .ok (a, rest) := read
  cases first : r.run input with
  | error e => rw [first] at read; cases read
  | ok got => rw [first] at read; exact congrArg Except.ok (Except.ok.inj read)

/-! ## Loops -/

/-- Read `count` values with one reader. -/
def readMany (r : ByteReader ε α) : Nat → ByteReader ε (List α)
  | 0 => pure []
  | count + 1 => do
      let value ← r
      let values ← readMany r count
      pure (value :: values)

theorem readMany_add (r : ByteReader ε α) (first second : Nat) :
    readMany r (first + second) =
      readMany r first >>= fun front => readMany r second >>= fun back => pure (front ++ back) := by
  induction first with
  | zero => simp [readMany]
  | succ first ih => simp [readMany, Nat.succ_add, ih]

theorem consumes_readMany {γ : Type} (r : ByteReader ε α) (wire : γ → List UInt8) (value : γ → α)
    (items : List γ) (each : ∀ item ∈ items, Consumes r (wire item) (value item)) :
    Consumes (readMany r items.length) (items.flatMap wire) (items.map value) := by
  induction items with
  | nil => exact consumes_pure []
  | cons item rest ih =>
      have head := each item (List.mem_cons_self ..)
      have tail := ih fun other member => each other (List.mem_cons_of_mem _ member)
      rw [List.flatMap_cons, ← List.append_nil (rest.flatMap wire)]
      exact head.bind (tail.bind (consumes_pure _))

/-- Read with `r` while input remains, folding the values into `acc`.  A round
that takes no byte would go on for ever; the fuel stops it with `stuck`. -/
def foldToEnd (r : ByteReader ε α) (insert : β → α → β) (stuck : ε) : Nat → β → ByteReader ε β
  | 0, acc => fun input =>
      match input with
      | [] => .ok (acc, [])
      | _ :: _ => .error stuck
  | fuel + 1, acc => fun input =>
      match input with
      | [] => .ok (acc, [])
      | byte :: rest =>
        (do
          let value ← r
          foldToEnd r insert stuck fuel (insert acc value)).run (byte :: rest)

theorem foldToEnd_nil (r : ByteReader ε α) (insert : β → α → β) (stuck : ε) (fuel : Nat) (acc : β) :
    (foldToEnd r insert stuck fuel acc).run [] = .ok (acc, []) := by
  cases fuel <;> rfl

theorem foldToEnd_cons (r : ByteReader ε α) (insert : β → α → β) (stuck : ε) (fuel : Nat) (acc : β)
    (byte : UInt8) (rest : List UInt8) :
    (foldToEnd r insert stuck (fuel + 1) acc).run (byte :: rest) =
      (r >>= fun value => foldToEnd r insert stuck fuel (insert acc value)).run (byte :: rest) := by
  rfl

/-- If every round takes a byte, the fuel and `stuck` play no part. -/
theorem foldToEnd_fuel (r : ByteReader ε α) (insert : β → α → β) (stuck stuck' : ε)
    (shrinks : ∀ input a rest, r.run input = .ok (a, rest) → rest.length < input.length)
    (fuel fuel' : Nat) (acc : β) (input : List UInt8)
    (enough : input.length ≤ fuel) (enough' : input.length ≤ fuel') :
    (foldToEnd r insert stuck fuel acc).run input =
      (foldToEnd r insert stuck' fuel' acc).run input := by
  induction fuel generalizing fuel' acc input with
  | zero =>
      have empty : input = [] := List.length_eq_zero_iff.mp (Nat.le_zero.mp enough)
      rw [empty, foldToEnd_nil, foldToEnd_nil]
  | succ fuel ih =>
      cases input with
      | nil => rw [foldToEnd_nil, foldToEnd_nil]
      | cons byte rest =>
          rw [List.length_cons] at enough enough'
          obtain ⟨fuel', rfl⟩ : ∃ less, fuel' = less + 1 := ⟨fuel' - 1, by omega⟩
          rw [foldToEnd_cons, foldToEnd_cons, StateT.run_bind, StateT.run_bind]
          cases round : r.run (byte :: rest) with
          | error e => rfl
          | ok got =>
              have less := shrinks _ _ _ round
              rw [List.length_cons] at less
              exact ih fuel' (insert acc got.1) got.2 (by omega) (by omega)

theorem readsAll_foldToEnd {γ : Type} (r : ByteReader ε α) (insert : β → α → β) (stuck : ε)
    (wire : γ → List UInt8) (value : γ → α) (items : List γ) (fuel : Nat) (acc : β)
    (each : ∀ item ∈ items, Consumes r (wire item) (value item))
    (nonempty : ∀ item ∈ items, wire item ≠ [])
    (enough : items.length ≤ fuel) :
    ReadsAll (foldToEnd r insert stuck fuel acc) (items.flatMap wire)
      ((items.map value).foldl insert acc) := by
  induction items generalizing fuel acc with
  | nil => exact foldToEnd_nil r insert stuck fuel acc
  | cons item rest ih =>
      have head := each item (List.mem_cons_self ..)
      rw [List.length_cons] at enough
      obtain ⟨fuel, rfl⟩ : ∃ less, fuel = less + 1 := ⟨fuel - 1, by omega⟩
      have tail := ih fuel (insert acc (value item))
        (fun other member => each other (List.mem_cons_of_mem _ member))
        (fun other member => nonempty other (List.mem_cons_of_mem _ member))
        (by omega)
      cases shape : wire item with
      | nil => exact absurd shape (nonempty item (List.mem_cons_self ..))
      | cons byte more =>
          have both := Consumes.bind_readsAll
            (f := fun v => foldToEnd r insert stuck fuel (insert acc v)) head tail
          rw [ReadsAll, shape] at both
          rw [ReadsAll, List.flatMap_cons, shape, List.cons_append, foldToEnd_cons]
          exact both

/-! ## What a reader took -/

/-- Every value of the reader was spelled by the bytes that it took. -/
def Spells (r : ByteReader ε α) (wire : α → List UInt8) : Prop :=
  ∀ input a rest, r.run input = .ok (a, rest) → input = wire a ++ rest

theorem Spells.map {r : ByteReader ε α} {wire : α → List UInt8} {wire' : β → List UInt8} {g : α → β}
    (spells : Spells r wire) (same : ∀ a, wire' (g a) = wire a) : Spells (g <$> r) wire' := by
  intro input b rest read
  obtain ⟨a, first, rfl⟩ := map_ok read
  rw [same]
  exact spells input a rest first

theorem Spells.mapErr {ε' : Type} {r : ByteReader ε α} {wire : α → List UInt8} (f : ε → ε')
    (spells : Spells r wire) : Spells (mapErr f r) wire :=
  fun input a rest read => spells input a rest (mapErr_ok read)

theorem pure_ok {a b : α} {input rest : List UInt8}
    (read : (pure a : ByteReader ε α).run input = .ok (b, rest)) : a = b ∧ input = rest :=
  Prod.mk.inj (Except.ok.inj read)

theorem readMany_ok {r : ByteReader ε α} {wire : α → List UInt8} (spells : Spells r wire)
    {count : Nat} {input rest : List UInt8} {values : List α}
    (read : (readMany r count).run input = .ok (values, rest)) :
    input = values.flatMap wire ++ rest ∧ values.length = count := by
  induction count generalizing input values with
  | zero =>
      obtain ⟨rfl, rfl⟩ := pure_ok read
      exact ⟨rfl, rfl⟩
  | succ count ih =>
      obtain ⟨value, middle, first, read⟩ := bind_ok read
      obtain ⟨more, last, later, done⟩ := bind_ok read
      obtain ⟨rfl, rfl⟩ := pure_ok done
      obtain ⟨shape, length⟩ := ih later
      refine ⟨?_, by rw [List.length_cons, length]⟩
      rw [spells _ _ _ first, shape, List.flatMap_cons, List.append_assoc]

/-- An item is spelled in no more bytes than all items are. -/
theorem length_le_flatMap (wire : α → List UInt8) {items : List α} {item : α}
    (member : item ∈ items) : (wire item).length ≤ (items.flatMap wire).length := by
  rw [List.length_flatMap]
  exact List.le_sum_of_mem (List.mem_map_of_mem member)

/-- Items that take bytes are no more than the bytes of all of them. -/
theorem count_le_flatMap {wire : α → List UInt8} (nonempty : ∀ item, 0 < (wire item).length)
    (items : List α) : items.length ≤ (items.flatMap wire).length := by
  have ones : ∀ n ∈ items.map fun item => (wire item).length, 1 ≤ n := by
    intro n member
    obtain ⟨item, _, rfl⟩ := List.mem_map.mp member
    exact nonempty item
  have least := List.length_le_sum_of_one_le _ ones
  rwa [List.length_map, ← List.length_flatMap] at least

theorem readMany_le {r : ByteReader ε α} {wire : α → List UInt8} (spells : Spells r wire)
    (nonempty : ∀ value, 0 < (wire value).length) {count : Nat} {input rest : List UInt8}
    {values : List α} (read : (readMany r count).run input = .ok (values, rest)) :
    count ≤ input.length := by
  obtain ⟨shape, length⟩ := readMany_ok spells read
  have least := count_le_flatMap nonempty values
  rw [shape, List.length_append]
  omega

/-- What holds of every value that is read holds of all values of a loop. -/
theorem readMany_all {r : ByteReader ε α} {P : α → Prop}
    (each : ∀ input a rest, r.run input = .ok (a, rest) → P a) {count : Nat}
    {input rest : List UInt8} {values : List α}
    (read : (readMany r count).run input = .ok (values, rest)) : ∀ value ∈ values, P value := by
  induction count generalizing input values with
  | zero =>
      obtain ⟨rfl, rfl⟩ := pure_ok read
      intro value member
      cases member
  | succ count ih =>
      obtain ⟨value, middle, first, read⟩ := bind_ok read
      obtain ⟨more, last, later, done⟩ := bind_ok read
      obtain ⟨rfl, rfl⟩ := pure_ok done
      rintro other (_ | ⟨_, member⟩)
      · exact each _ _ _ first
      · exact ih later other member

theorem foldToEnd_ok {r : ByteReader ε α} {wire : α → List UInt8} (spells : Spells r wire)
    {insert : β → α → β} {stuck : ε} {fuel : Nat} {acc out : β} {input rest : List UInt8}
    (read : (foldToEnd r insert stuck fuel acc).run input = .ok (out, rest)) :
    ∃ items : List α, out = items.foldl insert acc ∧ input = items.flatMap wire ∧ rest = [] := by
  induction fuel generalizing acc input with
  | zero =>
      cases input with
      | nil =>
          obtain ⟨rfl, rfl⟩ := Prod.mk.inj (Except.ok.inj read)
          exact ⟨[], rfl, rfl, rfl⟩
      | cons byte input => cases read
  | succ fuel ih =>
      cases input with
      | nil =>
          obtain ⟨rfl, rfl⟩ := Prod.mk.inj (Except.ok.inj read)
          exact ⟨[], rfl, rfl, rfl⟩
      | cons byte input =>
          rw [foldToEnd_cons] at read
          obtain ⟨item, middle, first, later⟩ := bind_ok read
          obtain ⟨items, folded, shape, ended⟩ := ih later
          exact ⟨item :: items, folded, by rw [spells _ _ _ first, shape, List.flatMap_cons], ended⟩

/-! ## Values read through a function -/

theorem readMany_map (g : α → β) (r : ByteReader ε α) (count : Nat) :
    readMany (g <$> r) count = List.map g <$> readMany r count := by
  induction count with
  | zero => simp [readMany]
  | succ count ih => simp [readMany, ih]

/-- A fold over the images of what is read is the image of a fold, if `fold` carries one
accumulator to the other. -/
theorem foldToEnd_map {γ δ : Type} (g : α → γ) (fold : β → δ) {insert : β → α → β}
    {insert' : δ → γ → δ} (carries : ∀ acc a, fold (insert acc a) = insert' (fold acc) (g a))
    (r : ByteReader ε α) (stuck : ε) (fuel : Nat) (acc : β) (input : List UInt8) :
    (foldToEnd (g <$> r) insert' stuck fuel (fold acc)).run input =
      (fold <$> foldToEnd r insert stuck fuel acc).run input := by
  induction fuel generalizing acc input with
  | zero => cases input <;> rfl
  | succ fuel ih =>
      cases input with
      | nil => rfl
      | cons byte input =>
          rw [StateT.run_map, foldToEnd_cons, foldToEnd_cons, StateT.run_bind, StateT.run_bind,
            StateT.run_map]
          cases r.run (byte :: input) with
          | error e => rfl
          | ok got =>
              have later := ih (insert acc got.1) got.2
              rw [carries, StateT.run_map] at later
              exact later

end Reading

section Writing
variable {ε : Type}

def Appends (w : ByteWriter ε Unit) (bytes : List UInt8) : Prop :=
  ∀ output, w.run output = .ok ((), output ++ bytes)

theorem appends_pure : Appends (pure () : ByteWriter ε Unit) [] := by
  intro output
  rw [List.append_nil]
  rfl

theorem Appends.bind {first second : ByteWriter ε Unit} {front back : List UInt8}
    (h1 : Appends first front) (h2 : Appends second back) :
    Appends (first >>= fun _ => second) (front ++ back) := by
  intro output
  rw [StateT.run_bind, h1 output]
  show second.run (output ++ front) = _
  rw [h2 (output ++ front), List.append_assoc]

/-- Write the items of a list one after the other. -/
def writeAll {α : Type} (w : α → ByteWriter ε Unit) : List α → ByteWriter ε Unit
  | [] => pure ()
  | item :: rest => do
      w item
      writeAll w rest

theorem appends_writeAll {α : Type} (w : α → ByteWriter ε Unit) (wire : α → List UInt8)
    (items : List α) (each : ∀ item ∈ items, Appends (w item) (wire item)) :
    Appends (writeAll w items) (items.flatMap wire) := by
  induction items with
  | nil => exact appends_pure
  | cons item rest ih =>
      have head := each item (List.mem_cons_self ..)
      have tail := ih fun other member => each other (List.mem_cons_of_mem _ member)
      exact head.bind tail

end Writing

end ByteCodec
