import Mathlib.Data.List.Basic

/-!
# Checked byte buffers

Memory is a list of cells that starts at the pointer a program holds.  A
checked write replaces a run of cells and fails when the run leaves the
buffer; a checked read splits a run off the front and fails when the memory
ends before it.  Consecutive writes compose to one write of the concatenated
bytes, which is how a serializer that advances a pointer is summarised.
-/

namespace Embassies.Library.Buffer

open List

variable {α ε : Type} {fault : ε} {buffer bytes first second before after memory tail : List α}
  {offset low high index count : Nat} {byte : α}

/-- Replace the cells of `buffer` from `offset` on by `bytes`. -/
def patch (buffer : List α) (offset : Nat) (bytes : List α) : List α :=
  buffer.take offset ++ bytes ++ buffer.drop (offset + bytes.length)

@[simp]
theorem patch_nil (buffer : List α) (offset : Nat) : patch buffer offset [] = buffer := by
  simp [patch]

theorem patch_zero (buffer bytes : List α) :
    patch buffer 0 bytes = bytes ++ buffer.drop bytes.length := by
  simp [patch]

theorem patch_length (fits : offset + bytes.length ≤ buffer.length) :
    (patch buffer offset bytes).length = buffer.length := by
  simp only [patch, length_append, length_take, length_drop]
  omega

theorem patch_byte_length (inside : offset < buffer.length) :
    (patch buffer offset [byte]).length = buffer.length :=
  patch_length inside

theorem take_patch (lower : low ≤ offset) (inside : offset ≤ buffer.length) :
    (patch buffer offset bytes).take low = buffer.take low := by
  rw [patch, append_assoc, take_append_of_le_length, take_take, Nat.min_eq_left lower]
  rw [length_take]
  omega

theorem drop_patch_start (inside : offset ≤ buffer.length) :
    (patch buffer offset bytes).drop offset = bytes ++ buffer.drop (offset + bytes.length) := by
  rw [patch, append_assoc]
  exact drop_left' (length_take_of_le inside)

theorem patch_patch_append (fits : offset + first.length + second.length ≤ buffer.length) :
    patch (patch buffer offset first) (offset + first.length) second =
      patch buffer offset (first ++ second) := by
  have lead : (buffer.take offset ++ first).length = offset + first.length := by
    simp only [length_append, length_take]
    omega
  unfold patch
  rw [take_append_of_le_length (by omega), take_of_length_le (by omega),
    drop_append, drop_eq_nil_of_le (by omega), lead, nil_append,
    drop_drop, length_append, ← append_assoc]
  congr 2
  omega

theorem patch_patch_before (fits : offset + first.length + second.length ≤ buffer.length) :
    patch (patch buffer (offset + first.length) second) offset first =
      patch buffer offset (first ++ second) := by
  have front : (patch buffer (offset + first.length) second).take offset = buffer.take offset :=
    take_patch (by omega) (by omega)
  have back : (patch buffer (offset + first.length) second).drop (offset + first.length) =
        second ++ buffer.drop (offset + first.length + second.length) :=
    drop_patch_start (by omega)
  rw [patch, front, back, patch, length_append, append_assoc,
    append_assoc, append_assoc, Nat.add_assoc]

theorem drop_patch (fits : offset + bytes.length ≤ buffer.length) :
    (patch buffer offset bytes).drop (offset + bytes.length) =
      buffer.drop (offset + bytes.length) := by
  have lead : (buffer.take offset ++ bytes).length = offset + bytes.length := by
    simp only [length_append, length_take]
    omega
  unfold patch
  rw [drop_append, drop_eq_nil_of_le (by omega), lead]
  simp

theorem drop_patch_replicate {size : Nat} {cell : α}
    (fits : low ≤ size) (ends : offset + bytes.length = low) :
    (patch (replicate size cell) offset bytes).drop low = replicate (size - low) cell := by
  subst ends
  rw [drop_patch (by rw [length_replicate]; exact fits), drop_replicate]

theorem patch_patch_same (same : first.length = second.length)
    (fits : offset + first.length ≤ buffer.length) :
    patch (patch buffer offset first) offset second = patch buffer offset second := by
  rw [patch, take_patch (Nat.le_refl _) (by omega), ← same, drop_patch fits, patch, same]

theorem patch_byte_eq_set (inside : offset < buffer.length) :
    patch buffer offset [byte] = buffer.set offset byte := by
  rw [set_eq_take_append_cons_drop, if_pos inside, patch,
    append_assoc, singleton_append, length_singleton]

theorem getElem?_patch_byte_ne (inside : offset < buffer.length) (other : offset ≠ index) :
    (patch buffer offset [byte])[index]? = buffer[index]? := by
  rw [patch_byte_eq_set inside, getElem?_set_ne other]

theorem getElem?_patch_byte (inside : offset < buffer.length) :
    (patch buffer offset [byte])[offset]? = some byte := by
  rw [patch_byte_eq_set inside, getElem?_set_self inside]

theorem patch_byte_self (holds : buffer[offset]? = some byte) :
    patch buffer offset [byte] = buffer := by
  obtain ⟨inside, same⟩ := List.getElem?_eq_some_iff.mp holds
  rw [patch_byte_eq_set inside, ← same, set_getElem_self]

theorem patch_self (holds : (buffer.drop offset).take bytes.length = bytes) :
    patch buffer offset bytes = buffer := by
  rw [patch, ← drop_drop]
  nth_rewrite 1 [← holds]
  rw [append_assoc, take_append_drop, take_append_drop]

theorem drop_patch_of_le
    (behind : offset + bytes.length ≤ low) (fits : offset + bytes.length ≤ buffer.length) :
    (patch buffer offset bytes).drop low = buffer.drop low := by
  obtain ⟨more, rfl⟩ := Nat.exists_eq_add_of_le behind
  rw [← drop_drop, drop_patch fits, drop_drop]

theorem getElem?_patch_outside (fits : offset + bytes.length ≤ buffer.length)
    (outside : index < offset ∨ offset + bytes.length ≤ index) :
    (patch buffer offset bytes)[index]? = buffer[index]? := by
  rcases outside with before | behind
  · have front := @take_patch α buffer bytes offset (index + 1) before (by omega)
    rw [← getElem?_take_of_lt (Nat.lt_succ_self index), front,
      getElem?_take_of_lt (Nat.lt_succ_self index)]
  · have back := drop_patch_of_le behind fits
    have first := congrArg (fun cells => cells[0]?) back
    simpa only [getElem?_drop, Nat.add_zero] using first

theorem getElem?_patch_inside (fits : offset ≤ buffer.length) (inside : index < bytes.length) :
    (patch buffer offset bytes)[offset + index]? = bytes[index]? := by
  rw [← getElem?_drop, drop_patch_start fits, getElem?_append_left inside]

theorem patch_whole (covers : bytes.length = buffer.length) : patch buffer 0 bytes = bytes := by
  simp [patch, covers]

/-! ## Changes confined to a window -/

/-- `after` differs from `before` at most in the cells from `low` up to
`high`. -/
structure Confined (before after : List α) (low high : Nat) : Prop where
  length : after.length = before.length
  front : after.take low = before.take low
  back : after.drop high = before.drop high

namespace Confined

theorem refl (buffer : List α) (low high : Nat) : Confined buffer buffer low high := ⟨rfl, rfl, rfl⟩

theorem mono {wideLow wideHigh : Nat} (confined : Confined before after low high)
    (lower : wideLow ≤ low) (higher : high ≤ wideHigh) :
    Confined before after wideLow wideHigh := by
  refine ⟨confined.length, ?_, ?_⟩
  · have front := congrArg (take wideLow) confined.front
    simpa only [take_take, Nat.min_eq_left lower] using front
  · have back := congrArg (drop (wideHigh - high)) confined.back
    simpa only [drop_drop, Nat.add_sub_cancel' higher] using back

theorem trans {third : List α} (earlier : Confined first second low high)
    (later : Confined second third low high) :
    Confined first third low high :=
  ⟨later.length.trans earlier.length, later.front.trans earlier.front,
    later.back.trans earlier.back⟩

theorem of_patch (fits : offset + bytes.length ≤ buffer.length)
    (lower : low ≤ offset) (higher : offset + bytes.length ≤ high) :
    Confined buffer (patch buffer offset bytes) low high := by
  exact mono ⟨patch_length fits, take_patch (Nat.le_refl _) (by omega), drop_patch fits⟩
    lower higher

theorem of_patch_byte (inside : offset < buffer.length)
    (lower : low ≤ offset) (higher : offset < high) :
    Confined buffer (patch buffer offset [byte]) low high :=
  of_patch inside lower higher

theorem getElem?_behind (confined : Confined before after low high) (behind : high ≤ index) :
    after[index]? = before[index]? := by
  obtain ⟨more, rfl⟩ := Nat.exists_eq_add_of_le behind
  rw [← getElem?_drop, confined.back, getElem?_drop]

theorem eq_patch (confined : Confined before after low high)
    (ordered : low ≤ high) (inside : high ≤ before.length) :
    ∃ bytes, bytes.length = high - low ∧ after = patch before low bytes := by
  have bounded := confined.length
  have size : ((after.drop low).take (high - low)).length = high - low := by
    rw [length_take, length_drop]
    omega
  refine ⟨(after.drop low).take (high - low), size, ?_⟩
  rw [patch, size, Nat.add_sub_cancel' ordered, ← confined.front, ← confined.back]
  have window : (after.drop low).drop (high - low) = after.drop high := by
    rw [drop_drop, Nat.add_sub_cancel' ordered]
  rw [← window, append_assoc, take_append_drop, take_append_drop]

end Confined

/-- Store `bytes` at `offset`, or fail when they do not fit. -/
def write (fault : ε) (buffer : List α) (offset : Nat) (bytes : List α) :
    Except ε (List α) :=
  if offset + bytes.length ≤ buffer.length then
    .ok (patch buffer offset bytes)
  else
    .error fault

theorem write_eq_ok (fits : offset + bytes.length ≤ buffer.length) :
    write fault buffer offset bytes = .ok (patch buffer offset bytes) :=
  if_pos fits

theorem write_eq_ok_iff :
    write fault buffer offset bytes = .ok after ↔ offset + bytes.length ≤ buffer.length ∧
        after = patch buffer offset bytes := by
  by_cases fits : offset + bytes.length ≤ buffer.length
  · simp [write_eq_ok fits, fits, eq_comm]
  · simp [write, fits]

theorem write_middle {fault : ε} {front old back bytes : List α} {offset : Nat}
    (before : front.length = offset) (same : bytes.length = old.length) :
    write fault (front ++ (old ++ back)) offset bytes = .ok (front ++ (bytes ++ back)) := by
  subst before
  rw [write_eq_ok (by simp only [length_append]; omega), patch,
    take_left, append_assoc, same, ← length_append,
    ← append_assoc front old back, drop_left]

/-- Load `count` cells from the front, or fail when the memory is shorter. -/
def read (fault : ε) (count : Nat) (memory : List α) :
    Except ε (List α × List α) :=
  if count ≤ memory.length then
    .ok (memory.take count, memory.drop count)
  else
    .error fault

theorem read_append (size : bytes.length = count) :
    read fault count (bytes ++ tail) = .ok (bytes, tail) := by
  subst size
  simp [read]

theorem read_eq_ok_iff : read fault count memory = .ok (bytes, tail) ↔
      memory = bytes ++ tail ∧ bytes.length = count := by
  constructor
  · intro loaded
    unfold read at loaded
    split at loaded
    · rename_i enough
      rcases loaded with ⟨rfl, rfl⟩
      exact ⟨(take_append_drop count memory).symm, length_take_of_le enough⟩
    · cases loaded
  · rintro ⟨rfl, size⟩
    exact read_append size

/-- Load `count` cells from a place, or fail when they do not all exist. -/
def load (fault : ε) (memory : List α) (offset count : Nat) : Except ε (List α) :=
  if offset + count ≤ memory.length then
    .ok ((memory.drop offset).take count)
  else
    .error fault

theorem load_eq_ok (inside : offset + count ≤ memory.length) :
    load fault memory offset count = .ok ((memory.drop offset).take count) :=
  if_pos inside

theorem load_eq_ok_iff : load fault memory offset count = .ok bytes ↔
      offset + count ≤ memory.length ∧ bytes = (memory.drop offset).take count := by
  by_cases inside : offset + count ≤ memory.length
  · simp [load_eq_ok inside, inside, eq_comm]
  · simp [load, inside]

theorem load_middle {fault : ε} {front middle back : List α} {offset count : Nat}
    (before : front.length = offset) (size : middle.length = count) :
    load fault (front ++ (middle ++ back)) offset count = .ok middle := by
  subst before size
  rw [load_eq_ok (by simp only [length_append]; omega), drop_left, take_left]

theorem load_inside {front part back : List α} (inside : offset + count ≤ part.length) :
    load fault (front ++ (part ++ back)) (front.length + offset) count =
      .ok ((part.drop offset).take count) := by
  rw [load_eq_ok (by simp only [length_append]; omega), ← drop_drop,
    drop_left, drop_append_of_le_length (by omega),
    take_append_of_le_length (by rw [length_drop]; omega)]

end Embassies.Library.Buffer
