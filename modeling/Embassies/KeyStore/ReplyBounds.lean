import Embassies.KeyStore.Client

/-!
# Where a lookup reads

The reply has two lengths that the server chooses.  The length of the value is
compared with the size of the reply, in which the header of the value also has to
fit, and the length of the ciphertext with the length of the value, in which the
header of the ciphertext also has to fit.  This module says for which replies the
lookup stays inside.
-/

namespace Embassies.KeyStore

open Library Library.Checked

variable {tagSize : Nat} {Random : Type}

/-- `val->len` of a reply. -/
def replyLen (reply : List UInt8) : Nat := (Format.host32.read reply).toNat

/-- `cipher->len` of a reply. -/
def replyCipherLen (reply : List UInt8) : Nat :=
  (Format.host32.read (reply.drop valueSize)).toNat

/-- A header is cut off, or a length leads out of the reply. -/
def Malformed (tagSize : Nat) (reply : List UInt8) : Prop :=
  reply.length < valueSize ∨ replyLen reply < ciphertextSize tagSize ∨
    reply.length < valueSize + replyLen reply ∨ replyCipherLen reply = 0 ∨
    reply.length < valueSize + ciphertextSize tagSize + replyCipherLen reply

/-- The lookup reads the reply and nothing else, and refuses malformed replies. -/
def ReadsInside (key : SymEncKey tagSize Random) (wanted : UInt64)
    (reply : List UInt8) : Prop :=
  key.lookup wanted reply.length reply ≠ .error .outOfReply ∧
    (Malformed tagSize reply → key.lookup wanted reply.length reply = .ok none)

/-- The first two checks reject the reply. -/
def Rejected (tagSize : Nat) (reply : List UInt8) : Prop :=
  reply.length < valueSize ∨ replyLen reply = 0 ∨ reply.length < replyLen reply ∨
    replyLen reply < ciphertextSize tagSize

/-! ## The steps of a lookup -/

theorem len_eq_zero_iff (bytes : List UInt8) : Format.host32.read bytes = 0 ↔ replyLen bytes = 0 :=
  UInt32.toNat_inj.symm

variable {reply : List UInt8} (key : SymEncKey tagSize Random)

theorem lookup_rejected (wanted : UInt64) (rejected : Rejected tagSize reply) :
    key.lookup wanted reply.length reply = .ok none := by
  rw [SymEncKey.lookup]
  by_cases short : reply.length < valueSize
  · rw [if_pos short]
  · rw [if_neg short, Format.load_eq_ok _ (by rw [Nat.zero_add]; exact Nat.le_of_not_lt short),
      ok_bind, List.drop_zero]
    have checks := rejected.resolve_left short
    rw [← len_eq_zero_iff] at checks
    exact if_pos checks

theorem lookup_accepted (wanted : UInt64) (accepted : ¬Rejected tagSize reply) :
    key.lookup wanted reply.length reply =
      key.openValue wanted reply (Format.host32.read reply) := by
  obtain ⟨long, checks⟩ := not_or.mp accepted
  rw [SymEncKey.lookup, if_neg long,
    Format.load_eq_ok _ (by rw [Nat.zero_add]; exact Nat.le_of_not_lt long), ok_bind,
    List.drop_zero]
  rw [← len_eq_zero_iff] at checks
  exact if_neg checks

theorem openPlaintext_ne_outOfReply (wanted : UInt64) (plain : List UInt8) :
    SymEncKey.openPlaintext wanted plain ≠ .error .outOfReply := by
  rw [SymEncKey.openPlaintext]
  split
  · rintro ⟨⟩
  · split
    · rintro ⟨⟩
    · dsimp only
      rw [Buffer.load]
      split
      · rintro ⟨⟩
      · rintro ⟨⟩

theorem openCipher_inside (wanted : UInt64)
    (fits : valueSize + ciphertextSize tagSize + replyCipherLen reply ≤ reply.length) :
    key.openCipher wanted reply (Format.host32.read (reply.drop valueSize)) ≠
      .error .outOfReply := by
  obtain ⟨cipher, loaded⟩ := Ciphertext.load_eq_ok fits
  rw [SymEncKey.openCipher, loaded, ok_bind]
  split
  · exact nofun
  · exact openPlaintext_ne_outOfReply wanted _

theorem openValue_inside (wanted : UInt64) (header : valueSize + Format.host32.size ≤ reply.length)
    (inside : valueSize + replyLen reply ≤ reply.length) :
    key.openValue wanted reply (Format.host32.read reply) =
      if replyCipherLen reply = 0 ∨ replyLen reply < replyCipherLen reply then
        .ok none
      else
        key.openCipher wanted reply (Format.host32.read (reply.drop valueSize)) := by
  have value : Buffer.load Fault.outOfReply reply valueSize
      (Format.host32.read reply).toNat = .ok _ := Buffer.load_eq_ok inside
  rw [SymEncKey.openValue, value, ok_bind, Format.load_eq_ok _ header, ok_bind]
  simp only [len_eq_zero_iff, UInt32.lt_iff_toNat_lt]
  rfl

/-- A lookup stays inside the reply exactly when the first checks reject the reply,
or the value lies inside it and the ciphertext is rejected or lies inside it too. -/
theorem readsInside_iff (key : SymEncKey tagSize Random) (wanted : UInt64) (reply : List UInt8) :
    ReadsInside key wanted reply ↔ Rejected tagSize reply ∨
        valueSize + replyLen reply ≤ reply.length ∧
          (replyCipherLen reply = 0 ∨ replyLen reply < replyCipherLen reply ∨
            valueSize + ciphertextSize tagSize + replyCipherLen reply ≤ reply.length) := by
  by_cases rejected : Rejected tagSize reply
  · refine iff_of_true ⟨?_, fun _ => lookup_rejected key wanted rejected⟩ (.inl rejected)
    rw [lookup_rejected key wanted rejected]
    exact nofun
  have small := ciphertextSize_ge tagSize
  have sizes : valueSize = 4 ∧ Format.host32.size = 4 := ⟨rfl, rfl⟩
  obtain ⟨long, checks⟩ := not_or.mp rejected
  rw [or_iff_right rejected, ReadsInside, lookup_accepted key wanted rejected]
  by_cases inside : valueSize + replyLen reply ≤ reply.length
  · rw [openValue_inside key wanted (by omega) inside]
    by_cases noCipher : replyCipherLen reply = 0 ∨ replyLen reply < replyCipherLen reply
    · rw [if_pos noCipher]
      exact iff_of_true ⟨nofun, fun _ => rfl⟩ ⟨inside, noCipher.imp_right .inl⟩
    · rw [if_neg noCipher]
      obtain ⟨nonempty, fitsValue⟩ := not_or.mp noCipher
      by_cases fits : valueSize + ciphertextSize tagSize + replyCipherLen reply ≤ reply.length
      · refine iff_of_true ⟨openCipher_inside key wanted fits, ?_⟩ ⟨inside, .inr (.inr fits)⟩
        rintro (short | short | short | none | short)
        all_goals omega
      · refine iff_of_false (fun stays => stays.1 ?_) ?_
        · rw [replyCipherLen] at fits
          rw [SymEncKey.openCipher, Ciphertext.load, dif_neg fits]
          rfl
        rintro ⟨-, none | longer | fitsReply⟩
        · exact nonempty none
        · exact fitsValue longer
        · exact fits fitsReply
  · refine iff_of_false ?_ (fun both => inside both.1)
    rintro ⟨stays, -⟩
    apply stays
    have outside : Buffer.load Fault.outOfReply reply valueSize
        (Format.host32.read reply).toNat = .error .outOfReply := if_neg inside
    rw [SymEncKey.openValue, outside]
    rfl

/-- A key that opens nothing. -/
def blindKey : SymEncKey 8 Unit := .clear fun _ => none

/-- A reply whose value is as long as the whole reply. -/
def tightReply : List UInt8 := 52 :: List.replicate 51 0

/-- A reply whose ciphertext is as long as the value that it lies in. -/
def nestedReply : List UInt8 :=
  52 :: 0 :: 0 :: 0 :: 52 :: List.replicate 51 0

/-- The server makes the client read behind both replies. -/
theorem tightReply_not_readsInside :
    blindKey.lookup 0 tightReply.length tightReply = .error .outOfReply ∧
      blindKey.lookup 0 nestedReply.length nestedReply = .error .outOfReply ∧
      ¬ReadsInside blindKey 0 tightReply ∧ ¬ReadsInside blindKey 0 nestedReply := by
  have tight : blindKey.lookup 0 tightReply.length tightReply = .error .outOfReply := rfl
  have nested : blindKey.lookup 0 nestedReply.length nestedReply = .error .outOfReply := rfl
  exact ⟨tight, nested, fun inside => inside.1 tight, fun inside => inside.1 nested⟩

end Embassies.KeyStore
