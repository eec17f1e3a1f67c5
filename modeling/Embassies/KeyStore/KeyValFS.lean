import Embassies.KeyStore.Client

/-!
# Files in the key-value store

A `KeyValFSHandle` keeps a file as one value of the store.  Every change looks the value up,
builds a new value in fresh memory and inserts it.  The client is taken to store values as they
are, so that the value is the state of the handle.

`ftruncate` copies the whole old value before it looks at the new length: a file that gets
shorter is copied past the end of the new value.
-/

namespace Embassies.KeyStore

open Library Library.Buffer Library.Checked List

/-- A call on a `KeyValFSHandle`. -/
inductive FileCall where
  | ftruncate (length : Nat)
  | read (len offset : Nat)
  | write (src : List UInt8) (offset : Nat)

namespace FileCall

/-- A new `KeyVal` with the old value copied into it; `cells` is what memory held before, and
sizes have thirty-two bits. -/
def copyValue (cells : Nat → UInt8) (val : List UInt8) (length : Nat) : Except Fault (List UInt8) :=
  Buffer.write .outOfAllocation ((range ((keyValSize + length) % 2 ^ 32)).map cells) keyValSize val

/-- The new value and what was read. -/
def run (cells : Nat → UInt8) (val : List UInt8) :
    FileCall → Except Fault (List UInt8 × List UInt8)
  | .ftruncate length => do
    let kv ← copyValue cells val length
    let kv ← (if val.length < length then
        Buffer.write .outOfAllocation kv (keyValSize + val.length)
          (replicate ((length - val.length) % 2 ^ 32) 0)
      else pure kv)
    let bytes ← load .outOfAllocation kv keyValSize (length % 2 ^ 32)
    return (bytes, [])
  | .read len offset => do
    ensure ((len + offset) % 2 ^ 64 ≤ val.length) .assertion
    let bytes ← load .outOfReply val offset len
    return (val, bytes)
  | .write src offset => do
    ensure ((offset + src.length) % 2 ^ 64 ≤ val.length) .assertion
    let kv ← copyValue cells val val.length
    let kv ← Buffer.write .outOfAllocation kv (keyValSize + offset) src
    let bytes ← load .outOfAllocation kv keyValSize val.length
    return (bytes, [])

/-- What the call does to a byte array. -/
def ideal (val : List UInt8) : FileCall → List UInt8 × List UInt8
  | .ftruncate length => (val.take length ++ replicate (length - val.length) 0, [])
  | .read len offset => (val, (val.drop offset).take len)
  | .write src offset => (patch val offset src, [])

/-- The file gets no shorter, and neither a size nor an asserted bound wraps. -/
def Fits (val : List UInt8) : FileCall → Prop
  | .ftruncate length => val.length ≤ length ∧ keyValSize + length < 2 ^ 32
  | .read len offset => offset + len ≤ val.length
  | .write src offset => offset + src.length ≤ val.length ∧ keyValSize + val.length < 2 ^ 32

/-- Something holds at every call of a sequence, on the file that a byte array would be then. -/
def Along (holds : List UInt8 → FileCall → Prop) : List UInt8 → List FileCall → Prop
  | _, [] => True
  | val, call :: calls => holds val call ∧ Along holds (call.ideal val).1 calls

/-- The call does what it does to a byte array, inside the memory of the values. -/
def Behaves (cells : Nat → UInt8) (val : List UInt8) (call : FileCall) : Prop :=
  call.run cells val = .ok (call.ideal val)

variable {cells : Nat → UInt8} {val : List UInt8} {length : Nat}

theorem exists_copyValue (longer : val.length ≤ length) (small : keyValSize + length < 2 ^ 32) :
    ∃ front back, copyValue cells val length = .ok (front ++ (val ++ back)) ∧
      front.length = keyValSize ∧ back.length = length - val.length := by
  rw [copyValue, Nat.mod_eq_of_lt small, write_eq_ok (by simpa), patch, append_assoc]
  refine ⟨_, _, rfl, ?_, ?_⟩
  · simp
  · simp only [length_drop, length_map, length_range]
    omega

theorem ftruncate_behaves (longer : val.length ≤ length) (small : keyValSize + length < 2 ^ 32) :
    Behaves cells val (.ftruncate length) := by
  obtain ⟨front, back, copied, before, behind⟩ := @exists_copyValue cells _ _ longer small
  have extended : (if val.length < length then
      Buffer.write Fault.outOfAllocation (front ++ (val ++ back)) (keyValSize + val.length)
        (replicate ((length - val.length) % 2 ^ 32) 0)
      else pure (front ++ (val ++ back))) =
      .ok (front ++ (val ++ replicate (length - val.length) 0)) := by
    rw [Nat.mod_eq_of_lt (a := length - val.length) (by omega)]
    split
    · rw [← append_assoc, ← append_nil back, write_middle (by simp [before]) (by simp [behind]),
        append_nil, append_assoc]
    · rw [length_eq_zero_iff.mp (behind.trans (by omega)), Nat.sub_eq_zero_of_le (by omega)]
      rfl
  have loaded := @load_middle _ _ Fault.outOfAllocation front
    (val ++ replicate (length - val.length) 0) [] _ length before (by simp; omega)
  rw [append_nil] at loaded
  rw [Behaves, run, copied, ok_bind, extended, ok_bind, Nat.mod_eq_of_lt (by omega), loaded, ideal,
    take_of_length_le longer]
  rfl

theorem write_behaves {src : List UInt8} {offset : Nat} (inside : offset + src.length ≤ val.length)
    (small : keyValSize + val.length < 2 ^ 32) : Behaves cells val (.write src offset) := by
  obtain ⟨front, back, copied, before, -⟩ := @exists_copyValue cells _ _ (Nat.le_refl _) small
  have parts : val ++ back = val.take offset ++ ((val.drop offset).take src.length ++
      (val.drop (offset + src.length) ++ back)) := by
    rw [← drop_drop, ← append_assoc (take src.length _), take_append_drop, ← append_assoc,
      take_append_drop]
  have stored : Buffer.write Fault.outOfAllocation (front ++ (val ++ back)) (keyValSize + offset)
      src = .ok (front ++ (patch val offset src ++ back)) := by
    rw [parts, ← append_assoc, write_middle (by simp; omega) (by simp; omega), patch]
    simp
  rw [Behaves, run, ensure_true (by omega), ok_bind, copied, ok_bind, stored, ok_bind,
    load_middle before (patch_length inside)]
  rfl

theorem copyValue_eq_ok {kv : List UInt8} (copied : copyValue cells val length = .ok kv) :
    kv.length = (keyValSize + length) % 2 ^ 32 ∧ keyValSize + val.length ≤ kv.length := by
  obtain ⟨fits, rfl⟩ := write_eq_ok_iff.mp copied
  rw [patch_length fits]
  rw [length_map, length_range] at fits ⊢
  exact ⟨rfl, fits⟩

theorem fits_of_behaves {call : FileCall} (behaves : call.Behaves cells val) : call.Fits val := by
  cases call with
  | ftruncate length =>
    obtain ⟨kv, copied, rest⟩ := of_bind behaves
    obtain ⟨kv, -, rest⟩ := of_bind rest
    obtain ⟨bytes, loaded, returned⟩ := of_bind rest
    obtain ⟨allocated, inside⟩ := copyValue_eq_ok copied
    -- The file that is left has the new length, so the length itself does not wrap.
    have whole := congrArg (fun result => result.1.length) (Except.ok.inj returned)
    obtain ⟨room, rfl⟩ := load_eq_ok_iff.mp loaded
    simp only [ideal, length_append, length_take, length_drop, length_replicate] at whole
    rw [Fits]
    omega
  | read len offset =>
    obtain ⟨_, -, rest⟩ := of_bind behaves
    obtain ⟨bytes, loaded, -⟩ := of_bind rest
    exact (load_eq_ok_iff.mp loaded).1
  | write src offset =>
    obtain ⟨_, -, rest⟩ := of_bind behaves
    obtain ⟨kv, copied, rest⟩ := of_bind rest
    obtain ⟨kv, stored, -⟩ := of_bind rest
    obtain ⟨allocated, inside⟩ := copyValue_eq_ok copied
    have room := (write_eq_ok_iff.mp stored).1
    rw [Fits]
    omega

theorem behaves_iff_fits {call : FileCall} : call.Behaves cells val ↔ call.Fits val := by
  refine ⟨fits_of_behaves, fun fits => ?_⟩
  cases call with
  | ftruncate length => exact ftruncate_behaves fits.1 fits.2
  | read len offset =>
    have inside : offset + len ≤ val.length := fits
    rw [Behaves, run, ensure_true (by omega), ok_bind, load_eq_ok inside]
    rfl
  | write src offset => exact write_behaves fits.1 fits.2

/-- A handle behaves as a byte array along exactly those sequences of calls in which the file
gets no shorter, and neither a size nor an asserted bound wraps. -/
theorem along_behaves_iff (cells : Nat → UInt8) (val : List UInt8) (calls : List FileCall) :
    Along (Behaves cells) val calls ↔ Along Fits val calls := by
  induction calls generalizing val with
  | nil => rfl
  | cons call calls induction => exact and_congr behaves_iff_fits (induction _)

/-- A file of two bytes that is cut to one byte is copied past the end of the new value. -/
theorem shorter_file_not_behaves : ¬Along (Behaves fun _ => 7) [1, 2] [.ftruncate 1] := by
  rintro ⟨behaves, -⟩
  cases behaves

end FileCall

end Embassies.KeyStore
