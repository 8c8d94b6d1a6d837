import Mathlib.Data.List.Basic
import Mathlib.Tactic.Ring

/-!
# Aligned layouts in two byte orders

A layout is a list of cells: padding, words whose bytes follow the byte order, and
raw bytes that do not. Both orders give every cell the same place.
-/

namespace AimDb.Layout

/-- The `n` low bytes of a number, the least significant first. -/
def leBytes : ℕ → ℕ → List UInt8
  | 0, _ => []
  | n + 1, value => UInt8.ofNat value :: leBytes n (value / 256)

def leValue : List UInt8 → ℕ
  | [] => 0
  | byte :: rest => byte.toNat + 256 * leValue rest

@[simp] theorem length_leBytes (n value : ℕ) : (leBytes n value).length = n := by
  induction n generalizing value with
  | zero => rfl
  | succ n inductionHypothesis => simp [leBytes, inductionHypothesis]

theorem leValue_leBytes (n value : ℕ) : leValue (leBytes n value) = value % 256 ^ n := by
  induction n generalizing value with
  | zero => simp [leBytes, leValue, Nat.mod_one]
  | succ n inductionHypothesis =>
      have low : (UInt8.ofNat value).toNat = value % 256 := UInt8.toNat_ofNat' ..
      rw [leBytes, leValue, inductionHypothesis, low, Nat.pow_succ', Nat.mod_mul]

theorem leValue_leBytes_of_lt {n value : ℕ} (fits : value < 256 ^ n) :
    leValue (leBytes n value) = value := by
  rw [leValue_leBytes, Nat.mod_eq_of_lt fits]

inductive Order
  | little
  | big
  deriving DecidableEq, Repr

inductive Cell
  | padding (n : ℕ)
  /-- Given least significant byte first. -/
  | word (bytes : List UInt8)
  | raw (bytes : List UInt8)
  deriving DecidableEq, Repr

def Order.arrange (order : Order) (bytes : List UInt8) : List UInt8 :=
  match order with
  | .little => bytes
  | .big => bytes.reverse

@[simp] theorem Order.length_arrange (order : Order) (bytes : List UInt8) :
    (order.arrange bytes).length = bytes.length := by
  cases order <;> simp [arrange]

@[simp] theorem Order.arrange_arrange (order : Order) (bytes : List UInt8) :
    order.arrange (order.arrange bytes) = bytes := by
  cases order <;> simp [arrange]

def Cell.image (order : Order) : Cell → List UInt8
  | .padding n => List.replicate n 0
  | .word bytes => order.arrange bytes
  | .raw bytes => bytes

def Cell.size : Cell → ℕ
  | .padding n => n
  | .word bytes => bytes.length
  | .raw bytes => bytes.length

def image (order : Order) (cells : List Cell) : List UInt8 := cells.flatMap (Cell.image order)

def size (cells : List Cell) : ℕ := (cells.map Cell.size).sum

@[simp] theorem image_nil (order : Order) : image order [] = [] := rfl

@[simp] theorem image_cons (order : Order) (cell : Cell) (cells : List Cell) :
    image order (cell :: cells) = cell.image order ++ image order cells := rfl

@[simp] theorem image_append (order : Order) (first second : List Cell) :
    image order (first ++ second) = image order first ++ image order second :=
  List.flatMap_append

@[simp] theorem size_nil : size [] = 0 := rfl

@[simp] theorem size_cons (cell : Cell) (cells : List Cell) :
    size (cell :: cells) = cell.size + size cells := by
  simp [size]

@[simp] theorem size_append (first second : List Cell) :
    size (first ++ second) = size first + size second := by
  simp [size]

@[simp] theorem length_image (order : Order) (cells : List Cell) :
    (image order cells).length = size cells := by
  induction cells with
  | nil => rfl
  | cons cell cells inductionHypothesis =>
      rw [image_cons, List.length_append, inductionHypothesis, size_cons]
      congr 1
      cases cell <;> simp [Cell.image, Cell.size]

/-- The padding that brings `pos` to a multiple of `alignment`. -/
def padding (alignment pos : ℕ) : ℕ := (alignment - pos % alignment) % alignment

/-- A word of `bytes` at its own alignment. -/
def aligned (pos : ℕ) (bytes : List UInt8) : List Cell :=
  [.padding (padding bytes.length pos), .word bytes]

@[simp] theorem size_aligned (pos : ℕ) (bytes : List UInt8) :
    size (aligned pos bytes) = padding bytes.length pos + bytes.length := by
  simp [aligned, Cell.size]

/-- One layout after another, each where the one before it ends. -/
def sequence {α : Type*} (cells : α → ℕ → List Cell) : List α → ℕ → List Cell
  | [], _ => []
  | value :: rest, pos =>
      cells value pos ++ sequence cells rest (pos + size (cells value pos))

/-- Elements of at least a byte each take at least as many bytes as there are. -/
theorem length_le_size_sequence {α : Type*} (cells : α → ℕ → List Cell) (values : List α)
    (occupied : ∀ value ∈ values, ∀ pos, 0 < size (cells value pos)) (pos : ℕ) :
    values.length ≤ size (sequence cells values pos) := by
  induction values generalizing pos with
  | nil => exact Nat.zero_le _
  | cons value rest inductionHypothesis =>
      have first := occupied value List.mem_cons_self pos
      have more :=
        inductionHypothesis (fun other mem => occupied other (List.mem_cons_of_mem _ mem))
        (pos + size (cells value pos))
      rw [sequence, size_append, List.length_cons]
      omega

variable {buffer front rest bytes : List UInt8} {start : ℕ}

/-- `buffer[start..start + n].copy_from_slice(bytes)` -/
def overwrite (buffer : List UInt8) (start : ℕ) (bytes : List UInt8) : Option (List UInt8) :=
  if start + bytes.length ≤ buffer.length then
    some (buffer.take start ++ bytes ++ buffer.drop (start + bytes.length))
  else none

/-- `buffer[start..].fill(byte)` -/
def fillFrom (buffer : List UInt8) (start : ℕ) (byte : UInt8) : Option (List UInt8) :=
  if start ≤ buffer.length then
    some (buffer.take start ++ List.replicate (buffer.length - start) byte)
  else none

/-- The `n` bytes at `start` as a number, each read by its index. -/
def fieldAt (n : ℕ) (buffer : List UInt8) (start : ℕ) : Option ℕ :=
  if start + n ≤ buffer.length then some (leValue ((buffer.drop start).take n)) else none

/-- `buffer.get(lo..hi)` -/
def getRange (buffer : List UInt8) (lo hi : ℕ) : Option (List UInt8) :=
  if lo ≤ hi ∧ hi ≤ buffer.length then some ((buffer.drop lo).take (hi - lo)) else none

theorem overwrite_behind {room : ℕ} (gap : ℕ) (byte : UInt8)
    (fits : gap + bytes.length ≤ room) (next : start = front.length + gap) :
    overwrite (front ++ List.replicate room byte) start bytes =
      some (front ++ List.replicate gap byte ++ bytes ++
        List.replicate (room - (gap + bytes.length)) byte) := by
  subst next
  have inside : front.length + gap + bytes.length ≤
      (front ++ List.replicate room byte).length := by
    simp
    omega
  have kept : (front ++ List.replicate room byte).take (front.length + gap) =
      front ++ List.replicate gap byte := by
    rw [List.take_append, List.take_of_length_le (Nat.le_add_right _ _), Nat.add_sub_cancel_left,
      List.take_replicate, Nat.min_eq_left (by omega)]
  rw [overwrite, if_pos inside, kept, Nat.add_assoc, ← List.drop_drop, List.drop_left,
    List.drop_replicate]

theorem overwrite_append {room : ℕ} (byte : UInt8) (fits : bytes.length ≤ room)
    (next : start = front.length) :
    overwrite (front ++ List.replicate room byte) start bytes =
      some (front ++ bytes ++ List.replicate (room - bytes.length) byte) := by
  simpa using overwrite_behind 0 byte (by omega) next

theorem fillFrom_behind {room : ℕ} (gap : ℕ) (byte other : UInt8) (fits : gap ≤ room)
    (next : start = front.length + gap) :
    fillFrom (front ++ List.replicate room byte) start other =
      some (front ++ List.replicate gap byte ++ List.replicate (room - gap) other) := by
  subst next
  have kept : (front ++ List.replicate room byte).take (front.length + gap) =
      front ++ List.replicate gap byte := by
    rw [List.take_append, List.take_of_length_le (Nat.le_add_right _ _), Nat.add_sub_cancel_left,
      List.take_replicate, Nat.min_eq_left fits]
  rw [fillFrom, if_pos (by simpa using fits), kept, List.length_append, List.length_replicate,
    Nat.add_sub_add_left]

theorem leValue_lt (bytes : List UInt8) : leValue bytes < 256 ^ bytes.length := by
  induction bytes with
  | nil => exact Nat.one_pos
  | cons byte bytes inductionHypothesis =>
      have small := byte.toNat_lt
      rw [leValue, List.length_cons, Nat.pow_succ']
      omega

theorem fieldAt_lt {n value : ℕ} (read : fieldAt n buffer start = some value) :
    value < 256 ^ n := by
  rw [fieldAt] at read
  split at read
  · next inside =>
    obtain rfl := Option.some.inj read
    have short : ((buffer.drop start).take n).length = n := by
      rw [List.length_take, List.length_drop]
      omega
    have bound := leValue_lt ((buffer.drop start).take n)
    rwa [short] at bound
  · cases read

theorem fieldAt_isSome {n : ℕ} (inside : start + n ≤ buffer.length) :
    ∃ value, fieldAt n buffer start = some value := ⟨_, if_pos inside⟩

theorem getRange_append {lo hi : ℕ} (from' : lo = front.length)
    (upTo : hi = front.length + bytes.length) :
    getRange (front ++ (bytes ++ rest)) lo hi = some bytes := by
  subst from' upTo
  rw [getRange, if_pos (by simp), List.drop_left, Nat.add_sub_cancel_left, List.take_left]

theorem getRange_eq_some_iff {lo hi : ℕ} {range : List UInt8} :
    getRange buffer lo hi = some range ↔
      lo ≤ hi ∧ hi ≤ buffer.length ∧ (buffer.drop lo).take (hi - lo) = range := by
  rw [getRange]
  split
  · next inside => simp [inside]
  · next outside =>
    simp only [reduceCtorEq, false_iff]
    exact fun ⟨ordered, bounded, _⟩ => outside ⟨ordered, bounded⟩

end AimDb.Layout
