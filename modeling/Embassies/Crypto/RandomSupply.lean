import Embassies.Crypto.Memory
import Embassies.Library.Format
import Mathlib.Data.Set.Operations

/-!
# The random supply

`RandomSupply` hands out, byte by byte, the blocks that a cipher makes of a
counter.  The counter has four words and is incremented with carry before each
block.  An assertion fails when all words overflow, so `2 ^ 128 - 1` blocks can
be handed out.
-/

namespace Embassies.Crypto

open Library Library.Checked

/-- `RandomSupply`, with the function that the block cipher computes for the
seed. -/
structure RandomSupply where
  encrypt : List UInt8 → Vector UInt8 16
  counter : List UInt32
  pool : Vector UInt8 16
  poolPtr : Nat

namespace RandomSupply

/-- The constructor, which leaves the pool as it was. -/
def new (encrypt : List UInt8 → Vector UInt8 16) (pool : Vector UInt8 16) : RandomSupply :=
  ⟨encrypt, [0, 0, 0, 0], pool, 16⟩

/-- The loop that increments the counter word by word, with `none` when all
words overflow. -/
def increment : List UInt32 → Option (List UInt32)
  | [] => none
  | word :: words =>
    if word + 1 = 0 then (increment words).map ((word + 1) :: ·) else some ((word + 1) :: words)

/-- The first part of `get_random_byte`, which refills the pool when it is used
up. -/
def refill (supply : RandomSupply) : Except Halt RandomSupply :=
  if supply.poolPtr ≥ 16 then
    match increment supply.counter with
    | none => .error (.fault .assertion)
    | some counter =>
      .ok { supply with
        counter
        pool := supply.encrypt (counter.flatMap Format.host32.encode)
        poolPtr := 0 }
  else
    .ok supply

/-- `get_random_byte`. -/
def getRandomByte (supply : RandomSupply) : Except Halt (UInt8 × RandomSupply) := do
  let supply ← supply.refill
  match supply.pool[supply.poolPtr]? with
  | none => .error (.fault .outOfBoundsRead)
  | some byte => return (byte, { supply with poolPtr := supply.poolPtr + 1 })

/-- The loop of `get_random_bytes`. -/
def getRandomBytes : Nat → RandomSupply → Except Halt (List UInt8 × RandomSupply)
  | 0, supply => .ok ([], supply)
  | length + 1, supply => do
    let (byte, supply) ← supply.getRandomByte
    let (bytes, supply) ← getRandomBytes length supply
    return (byte :: bytes, supply)

/-- A call. -/
inductive Request where
  | byte
  | bytes (length : UInt32)

/-- The number of bytes that a call asks for. -/
def Request.count : Request → Nat
  | .byte => 1
  | .bytes length => length.toNat

/-- A call and the bytes that it returns. -/
def serve : Request → RandomSupply → Except Halt (List UInt8 × RandomSupply)
  | .byte, supply => do
    let (byte, supply) ← supply.getRandomByte
    return ([byte], supply)
  | .bytes length, supply => getRandomBytes length.toNat supply

/-- Calls and all the bytes that they return. -/
def serveAll : List Request → RandomSupply → Except Halt (List UInt8 × RandomSupply)
  | [], supply => .ok ([], supply)
  | request :: requests, supply => do
    let (bytes, supply) ← serve request supply
    let (rest, supply) ← serveAll requests supply
    return (bytes ++ rest, supply)

/-! ## The counter -/

/-- The words of a number, the lowest first. -/
def words : Nat → Nat → List UInt32
  | 0, _ => []
  | count + 1, value => UInt32.ofNat value :: words count (value / 2 ^ 32)

theorem increment_words {count value : Nat} (bound : value < 2 ^ (32 * count)) :
    increment (words count value) =
      if value + 1 < 2 ^ (32 * count) then some (words count (value + 1)) else none := by
  induction count generalizing value with
  | zero => rfl
  | succ count induction =>
    have size : 2 ^ (32 * (count + 1)) = 2 ^ (32 * count) * 2 ^ 32 := Nat.pow_add 2 (32 * count) 32
    have next : UInt32.ofNat value + 1 = UInt32.ofNat (value + 1) := (UInt32.ofNat_add value 1).symm
    have zero : UInt32.ofNat value + 1 = 0 ↔ (value + 1) % 2 ^ 32 = 0 := by
      rw [next, ← UInt32.toNat_inj, UInt32.toNat_ofNat']
      rfl
    rw [words, increment, words, next]
    by_cases carries : (value + 1) % 2 ^ 32 = 0
    · have higher : (value + 1) / 2 ^ 32 = value / 2 ^ 32 + 1 := by omega
      rw [if_pos (next ▸ zero.mpr carries), induction (by omega), higher]
      split
      · rw [if_pos (by omega)]
        rfl
      · rw [if_neg (by omega)]
        rfl
    · have higher : (value + 1) / 2 ^ 32 = value / 2 ^ 32 := by omega
      rw [if_neg (next ▸ mt zero.mp carries), higher, if_pos (by omega)]

theorem words_inj {count left right : Nat} (leftBound : left < 2 ^ (32 * count))
    (rightBound : right < 2 ^ (32 * count)) (same : words count left = words count right) :
    left = right := by
  induction count generalizing left right with
  | zero =>
    omega
  | succ count induction =>
    have size : 2 ^ (32 * (count + 1)) = 2 ^ (32 * count) * 2 ^ 32 := Nat.pow_add 2 (32 * count) 32
    obtain ⟨low, high⟩ := List.cons.inj same
    rw [← UInt32.toNat_inj, UInt32.toNat_ofNat', UInt32.toNat_ofNat'] at low
    have := induction (by omega) (by omega) high
    omega

/-! ## The stream -/

variable {encrypt : List UInt8 → Vector UInt8 16}

/-- The block of a value of the counter. -/
def block (encrypt : List UInt8 → Vector UInt8 16) (value : Nat) : Vector UInt8 16 :=
  encrypt ((words 4 value).flatMap Format.host32.encode)

/-- The bytes of all blocks, one after the other. -/
def stream (encrypt : List UInt8 → Vector UInt8 16) (index : Nat) : UInt8 :=
  (block encrypt (index / 16 + 1)).get ⟨index % 16, Nat.mod_lt _ (by decide)⟩

/-- The supply has handed out so many bytes. -/
def At (encrypt : List UInt8 → Vector UInt8 16) (index : Nat) (supply : RandomSupply) : Prop :=
  supply.encrypt = encrypt ∧ supply.poolPtr ≤ 16 ∧ ∃ value < 2 ^ 128,
    supply.counter = words 4 value ∧ index + 16 = 16 * value + supply.poolPtr ∧
    (supply.poolPtr < 16 → supply.pool = block encrypt value)

/-- The call takes the next bytes of the stream, unless the counter runs out. -/
def Takes (encrypt : List UInt8 → Vector UInt8 16)
    (call : RandomSupply → Except Halt (List UInt8 × RandomSupply)) (count : Nat) : Prop :=
  ∀ supply index, At encrypt index supply →
    if index + count ≤ 2 ^ 132 - 16 then
      ∃ next, call supply = .ok ((List.range' index count).map (stream encrypt), next) ∧
        At encrypt (index + count) next
    else call supply = .error (.fault .assertion)

variable {supply : RandomSupply} {index : Nat}

theorem At.refill (position : At encrypt index supply) :
    if index + 1 ≤ 2 ^ 132 - 16 then
      ∃ filled, supply.refill = .ok filled ∧ At encrypt index filled ∧ filled.poolPtr < 16
    else supply.refill = .error (.fault .assertion) := by
  obtain ⟨same, bounded, value, small, counter, place, filled⟩ := position
  rw [RandomSupply.refill]
  by_cases full : supply.poolPtr ≥ 16
  · rw [if_pos full, counter, @increment_words 4 value small]
    by_cases more : value + 1 < 2 ^ 128
    · rw [if_pos more, if_pos (by omega)]
      refine ⟨_, rfl, ⟨same, Nat.zero_le 16, value + 1, more, rfl, ?_, fun _ => by rw [same]; rfl⟩,
        Nat.succ_pos 15⟩
      show index + 16 = 16 * (value + 1) + 0
      omega
    · rw [if_neg more, if_neg (by omega)]
  · rw [if_neg full, if_pos (by omega)]
    exact ⟨supply, rfl, ⟨same, bounded, value, small, counter, place, filled⟩, by omega⟩

theorem At.next (position : At encrypt index supply) (inside : supply.poolPtr < 16) :
    supply.pool[supply.poolPtr]? = some (stream encrypt index) ∧
      At encrypt (index + 1) { supply with poolPtr := supply.poolPtr + 1 } := by
  obtain ⟨same, bounded, value, small, counter, place, filled⟩ := position
  have quotient : index / 16 + 1 = value := by omega
  have remainder : index % 16 = supply.poolPtr := by omega
  refine ⟨?_, same, inside, value, small, counter, ?_, fun _ => filled inside⟩
  · rw [filled inside, Vector.getElem?_eq_getElem inside, stream]
    simp only [quotient, remainder]
    rfl
  · show index + 1 + 16 = 16 * value + (supply.poolPtr + 1)
    omega

theorem takes_byte : Takes encrypt (serve .byte) 1 := by
  intro supply index position
  have filled := position.refill
  rw [serve, getRandomByte]
  split at filled
  · obtain ⟨filled, called, reached, inside⟩ := filled
    rw [if_pos ‹_›, called, ok_bind]
    rw [(reached.next inside).1]
    exact ⟨_, rfl, (reached.next inside).2⟩
  · rw [if_neg ‹_›, filled]
    rfl

theorem takes_nothing : Takes encrypt (fun supply => .ok ([], supply)) 0 := by
  intro supply index position
  split
  · exact ⟨supply, rfl, position⟩
  · obtain ⟨-, bounded, value, small, -, place, -⟩ := position
    omega

theorem Takes.append {first second : RandomSupply → Except Halt (List UInt8 × RandomSupply)}
    {firstCount secondCount : Nat} (takesFirst : Takes encrypt first firstCount)
    (takesSecond : Takes encrypt second secondCount) :
    Takes encrypt (fun supply => do
      let (bytes, supply) ← first supply
      let (rest, supply) ← second supply
      return (bytes ++ rest, supply)) (firstCount + secondCount) := by
  intro supply index position
  have one := takesFirst supply index position
  dsimp only
  split at one
  · obtain ⟨middle, called, reached⟩ := one
    have two := takesSecond middle (index + firstCount) reached
    rw [called, ok_bind]
    rw [← Nat.add_assoc]
    split at two
    · obtain ⟨last, calledAgain, final⟩ := two
      rw [if_pos ‹_›, calledAgain, ← List.range'_append_1, List.map_append]
      exact ⟨last, rfl, final⟩
    · rw [if_neg ‹_›, two]
      rfl
  · rw [if_neg (by omega), one]
    rfl

theorem takes_bytes (length : Nat) : Takes encrypt (getRandomBytes length) length := by
  induction length with
  | zero => exact takes_nothing
  | succ length induction =>
    have both := takes_byte.append induction
    rw [Nat.add_comm] at both
    simpa [getRandomBytes, serve] using both

theorem takes_all (requests : List Request) :
    Takes encrypt (serveAll requests) (requests.map Request.count).sum := by
  induction requests with
  | nil => exact takes_nothing
  | cons request requests induction =>
    cases request with
    | byte => exact takes_byte.append induction
    | bytes length => exact (takes_bytes length.toNat).append induction

theorem at_new (pool : Vector UInt8 16) : At encrypt 0 (new encrypt pool) :=
  ⟨rfl, Nat.le_refl 16, 0, by decide, rfl, rfl, fun absurd => (Nat.lt_irrefl 16 absurd).elim⟩

theorem serveAll_eq_error {requests : List Request} (pool : Vector UInt8 16)
    (more : 2 ^ 132 - 16 < (requests.map Request.count).sum) :
    serveAll requests (new encrypt pool) = .error (.fault .assertion) := by
  have served := takes_all requests _ 0 (@at_new encrypt pool)
  rwa [if_neg (by omega)] at served

/-- However the calls are split, they return the bytes of the blocks one after
the other, exactly as long as these last, and no block is made of the same
words of the counter as another. -/
theorem random_stream_iff (pool : Vector UInt8 16) (requests : List Request) :
    ((∃ final, serveAll requests (new encrypt pool) = .ok
        ((List.range (requests.map Request.count).sum).map (stream encrypt), final)) ↔
      (requests.map Request.count).sum ≤ 2 ^ 132 - 16) ∧
    Set.InjOn (words 4) {value | value < 2 ^ 128} := by
  refine ⟨⟨?_, fun fits => ?_⟩, fun left small right bounded => words_inj small bounded⟩
  · rintro ⟨final, returned⟩
    by_contra more
    rw [serveAll_eq_error pool (by omega)] at returned
    cases returned
  · have served := takes_all requests _ 0 (@at_new encrypt pool)
    rw [if_pos (by omega), ← List.range_eq_range'] at served
    obtain ⟨final, returned, -⟩ := served
    exact ⟨final, returned⟩

/-- The last fifteen of `2 ^ 132 - 1` single bytes cannot be had. -/
theorem random_stream_ends : ((List.replicate (2 ^ 132 - 1) Request.byte).map Request.count).sum <
      2 ^ 132 ∧ ∀ encrypt pool, serveAll (List.replicate (2 ^ 132 - 1) .byte) (new encrypt pool) =
        .error (.fault .assertion) := by
  have count : ((List.replicate (2 ^ 132 - 1) Request.byte).map Request.count).sum =
      2 ^ 132 - 1 := by
    rw [List.map_replicate, List.sum_replicate_nat, Request.count, Nat.mul_one]
  refine ⟨?_, fun encrypt pool => serveAll_eq_error pool ?_⟩
  · rw [count]
    decide
  · rw [count]
    decide

end RandomSupply

end Embassies.Crypto
