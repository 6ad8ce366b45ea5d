import Mathlib.Data.List.Basic

/-!
# A local file

A content and a position in it.  A read takes some of the items at the position, a write
replaces the items there by the front of some data, and a seek moves the position.  `Steps`
is a history of such operations with what their caller sees.
-/

set_option autoImplicit false

namespace LocalFile

section
variable {α : Type}

/-- Up to `len` items of a content, from an offset. -/
def slice (content : List α) (offset len : Nat) : List α := (content.drop offset).take len

/-- A content with some data at an offset.  A gap before the data is filled with blanks. -/
def writeAt (blank : α) (content : List α) (offset : Nat) (data : List α) : List α :=
  if data.isEmpty then content
  else content.take offset ++ (List.replicate (offset - content.length) blank ++
    (data ++ content.drop (offset + data.length)))

theorem writeAt_length_le (blank : α) (content : List α) (offset : Nat) (data : List α) :
    (writeAt blank content offset data).length ≤ max content.length (offset + data.length) := by
  unfold writeAt
  split
  · omega
  · simp only [List.length_append, List.length_take, List.length_replicate, List.length_drop]
    omega

/-- Data written right behind a front takes the place of what was there. -/
theorem writeAt_front (blank : α) (front rest data : List α) :
    writeAt blank (front ++ rest) front.length data = front ++ (data ++ rest.drop data.length) := by
  unfold writeAt
  split
  · rename_i empty
    rw [List.isEmpty_iff.mp empty]
    simp
  · have gap : front.length - (front ++ rest).length = 0 := by
      rw [List.length_append]
      omega
    rw [gap, List.take_left, List.drop_append]
    simp

/-- Data written right behind other data is as good as both written at once. -/
theorem writeAt_writeAt (blank : α) (content : List α) (offset : Nat) (first second : List α) :
    writeAt blank (writeAt blank content offset first) (offset + first.length) second =
      writeAt blank content offset (first ++ second) := by
  by_cases empty : first = []
  · subst empty
    rfl
  · have wrote (data : List α) (some : data ≠ []) : writeAt blank content offset data =
        (content.take offset ++ List.replicate (offset - content.length) blank ++ data) ++
          content.drop (offset + data.length) := by
      rw [writeAt, if_neg (by simpa using some)]
      simp
    have length : (content.take offset ++ List.replicate (offset - content.length) blank ++
        first).length = offset + first.length := by
      simp only [List.length_append, List.length_take, List.length_replicate]
      omega
    have behind := writeAt_front blank (content.take offset ++
      List.replicate (offset - content.length) blank ++ first)
      (content.drop (offset + first.length)) second
    rw [length] at behind
    rw [wrote first empty, behind, wrote (first ++ second) (by simp [empty])]
    simp [List.drop_drop, Nat.add_assoc]

end

inductive Whence where
  | start (n : Nat)
  | current (i : Int)
  | «end» (i : Int)
deriving DecidableEq, Repr

inductive Op (α : Type) where
  /-- A read into a buffer with some room. -/
  | read (room : Nat)
  | write (data : List α)
  | seek (whence : Whence)

/-- What the caller of an operation sees. -/
inductive Seen (α : Type) where
  | read (items : List α)
  | wrote (n : Nat)
  | sought (pos : Nat)

end LocalFile

structure LocalFile (α : Type) where
  content : List α
  pos : Nat

namespace LocalFile

variable {α : Type}

def target (f : LocalFile α) : Whence → Int
  | .start n => n
  | .current i => f.pos + i
  | .end i => f.content.length + i

/-- One operation, where a write takes no more than `limit` items. -/
inductive Step (blank : α) (limit : Nat) : LocalFile α → Op α → Seen α → LocalFile α → Prop
  | read (f : LocalFile α) (room : Nat) (items : List α)
      (part : items = slice f.content f.pos items.length) (fits : items.length ≤ room)
      (stops : items.length = 0 → room = 0 ∨ f.content.length ≤ f.pos) :
      Step blank limit f (.read room) (.read items) ⟨f.content, f.pos + items.length⟩
  | write (f : LocalFile α) (data : List α) :
      Step blank limit f (.write data) (.wrote (min data.length limit))
        ⟨writeAt blank f.content f.pos (data.take (min data.length limit)),
          f.pos + min data.length limit⟩
  | seek (f : LocalFile α) (whence : Whence) (pos : Nat) (there : f.target whence = pos) :
      Step blank limit f (.seek whence) (.sought pos) ⟨f.content, pos⟩

/-- A history of operations. -/
inductive Steps (blank : α) (limit : Nat) :
    LocalFile α → List (Op α × Seen α) → LocalFile α → Prop
  | nil (f : LocalFile α) : Steps blank limit f [] f
  | snoc {f g h : LocalFile α} {history : List (Op α × Seen α)} {op : Op α} {seen : Seen α}
      (before : Steps blank limit f history g) (last : Step blank limit g op seen h) :
      Steps blank limit f (history ++ [(op, seen)]) h

end LocalFile
